import Libnv.Log.Ring

/-!
# The log ring is a bounded FIFO under DROP and BLOCK

The invariant `FifoInv` relates the sequence number of every slot to the two
counters and to the program points of all producers and of the consumer.  The
window of live positions is `[dequeue_pos, dequeue_pos + capacity)`:

* a position from `enqueue_pos` on is free, and its slot carries the position
  itself;
* a claimed position is held by exactly one producer, whose slot still carries
  the position, or it is published and carries the position plus one, or the
  consumer has just released its slot for the next lap.

The stale counters that a producer has loaded are only ever too small, so a
successful claim leaves the window intact.
-/

namespace Libnv.Log

universe u

open MaskedRing

/-- The capacity is a power of two and the mask fits it. -/
def LogRing.Sized (r : LogRing) : Prop :=
  ∃ k, r.capacity = 2 ^ k ∧ r.mask = 2 ^ k - 1

@[simp] theorem slot_setSlot_self (r : LogRing) (p : Nat) (f : LogSlot → LogSlot) :
    (r.setSlot p f).slot p = f (r.slot p) :=
  get_modify_self r.slots r.mask p f

theorem slot_setSlot_window {r : LogRing} (hsized : r.Sized) (f : LogSlot → LogSlot) {d p q : Nat}
    (hp : d ≤ p) (hp' : p < d + r.capacity) (hq : d ≤ q) (hq' : q < d + r.capacity) (hne : q ≠ p) :
    (r.setSlot p f).slot q = r.slot q := by
  obtain ⟨k, hcap, hmask⟩ := hsized
  rw [hcap] at hp' hq'
  unfold LogRing.setSlot LogRing.slot
  dsimp only
  rw [hmask]
  exact get_modify_window r.slots f hp hp' hq hq' hne

theorem slot_next_lap {r : LogRing} (hsized : r.Sized) (p : Nat) :
    r.slot (p + r.capacity) = r.slot p := by
  obtain ⟨k, hcap, hmask⟩ := hsized
  unfold LogRing.slot
  rw [hmask, hcap]
  exact get_next_lap r.slots k p

theorem LogRing.Sized.capacity_pos {r : LogRing} (hsized : r.Sized) : 0 < r.capacity := by
  obtain ⟨k, hcap, -⟩ := hsized
  rw [hcap]
  exact Nat.two_pow_pos k

theorem roundPow2Loop_pow (fuel k n : Nat) : ∃ k', roundPow2Loop fuel (2 ^ k) n = 2 ^ k' := by
  induction fuel generalizing k with
  | zero => exact ⟨k, rfl⟩
  | succ fuel ih =>
      rw [roundPow2Loop]
      split
      · have hshift : 2 ^ k <<< 1 = 2 ^ (k + 1) := by
          rw [Nat.shiftLeft_eq, Nat.pow_one, Nat.pow_succ]
        rw [hshift]
        exact ih (k + 1)
      · exact ⟨k, rfl⟩

/-- The configured queue size is rounded to a power of two. -/
theorem nvLogRingInit_sized (queueSize : Nat) : (nvLogRingInit queueSize).Sized := by
  have hpow : ∃ k, nvLogRoundPow2 queueSize = 2 ^ k := by
    unfold nvLogRoundPow2
    split
    · exact ⟨16, rfl⟩
    · exact roundPow2Loop_pow queueSize 6 queueSize
  obtain ⟨k, hk⟩ := hpow
  exact ⟨k, hk, by simp [nvLogRingInit, hk]⟩

section Invariant

variable {claims claims' : List LogMsg} {m : LogMsg} {p : Nat} {r r' : LogRing} {text : Nat → UInt8}

/-- The message and position of a producer between claim and publication. -/
def PushPc.claim? : PushPc → Option (LogMsg × Nat)
  | .spin m pos _ => some (m, pos)
  | .recheck m pos => some (m, pos)
  | .writeText m pos _ => some (m, pos)
  | .writeNul m pos => some (m, pos)
  | .writeLevel m pos => some (m, pos)
  | .publish m pos => some (m, pos)
  | _ => none

/-- The first `i` bytes of the message are in the buffer. -/
def StoresPrefix (text : Nat → UInt8) (m : LogMsg) (i : Nat) : Prop :=
  ∀ j b, m.text.bytes[j]? = some b → j < i → text j = b

/-- The whole message and its terminator are in the buffer. -/
def StoresText (text : Nat → UInt8) (m : LogMsg) : Prop :=
  StoresPrefix text m m.text.length ∧ text m.text.length = 0

/-- The slot of position `p` is published and holds the claiming message. -/
def Published (r : LogRing) (claims : List LogMsg) (p : Nat) : Prop :=
  (r.slot p).seq = p + 1 ∧
    ∃ m, claims[p]? = some m ∧
      StoresText (r.slot p).text m ∧ (r.slot p).level = m.level

theorem Published.mono
    (h : Published r claims p) (hclaims : ∀ m, claims[p]? = some m → claims'[p]? = some m)
    (hslot : r'.slot p = r.slot p) : Published r' claims' p := by
  obtain ⟨hseq, m, hcl, hst⟩ := h
  refine ⟨by rw [hslot, hseq], m, hclaims m hcl, ?_⟩
  rw [hslot]
  exact hst

/-- Position `p` is claimed by message `m`, and its slot is the producer's. -/
def Held (r : LogRing) (claims : List LogMsg) (m : LogMsg) (p : Nat) : Prop :=
  r.dequeuePos ≤ p ∧ p < r.enqueuePos ∧ (r.slot p).seq = p ∧
    claims[p]? = some m

/-- A producer keeps its slot while it writes text and level. -/
theorem Held.setSlot (h : Held r claims m p) {f : LogSlot → LogSlot} (hf : ∀ x, (f x).seq = x.seq) :
    Held (r.setSlot p f) claims m p := by
  obtain ⟨hd, he, hseq, hcl⟩ := h
  refine ⟨hd, he, ?_, hcl⟩
  rw [slot_setSlot_self, hf]
  exact hseq

theorem StoresPrefix.store {i : Nat} {b : UInt8}
    (h : StoresPrefix text m i) (hb : m.text.bytes[i]? = some b) :
    StoresPrefix (fun j => if j = i then b else text j) m (i + 1) := by
  intro j b' hj hlt
  by_cases hji : j = i
  · subst hji
    rw [hb] at hj
    simpa using hj
  · simp only [hji, if_false]
    exact h j b' hj (by omega)

theorem StoresPrefix.of_none {i : Nat} (h : StoresPrefix text m i) (hi : m.text.bytes[i]? = none) :
    StoresPrefix text m m.text.length := by
  intro j b hj hlt
  refine h j b hj ?_
  have := List.getElem?_eq_none_iff.mp hi
  simp only [CString.length] at hlt
  omega

theorem StoresPrefix.store_nul (h : StoresPrefix text m m.text.length) :
    StoresText (fun j => if j = m.text.length then 0 else text j) m := by
  refine ⟨?_, by simp⟩
  intro j b hj hlt
  simp only [Nat.ne_of_lt hlt, if_false]
  exact h j b hj hlt

/-- What a producer may rely on at each program point. -/
def PushOk (r : LogRing) (claims : List LogMsg) : PushPc → Prop
  | .loadHead _ pos => pos ≤ r.enqueuePos
  | .casTail _ pos => pos ≤ r.enqueuePos ∧ pos < r.dequeuePos + r.capacity
  | .spin m pos spins => Held r claims m pos ∧ spins = 0
  | .recheck m pos => Held r claims m pos
  | .writeText m pos i =>
      Held r claims m pos ∧ StoresPrefix (r.slot pos).text m i
  | .writeNul m pos =>
      Held r claims m pos ∧ StoresPrefix (r.slot pos).text m m.text.length
  | .writeLevel m pos => Held r claims m pos ∧ StoresText (r.slot pos).text m
  | .publish m pos =>
      Held r claims m pos ∧ StoresText (r.slot pos).text m ∧
        (r.slot pos).level = m.level
  | .casHead _ _ _ => False
  | .countDiscard _ _ => False
  | .releaseSlot _ _ => False
  | .dropTimeout _ => False
  | _ => True

/-- The first `i` bytes of the slot have been copied out. -/
def Copied (r : LogRing) (out : LogOut) (pos i : Nat) : Prop :=
  ∀ j, j < i → out.text j = (r.slot pos).text j

/-- The consumer works on the oldest position, and it is published. -/
def Taking (r : LogRing) (claims : List LogMsg) (pos : Nat) : Prop :=
  pos = r.dequeuePos ∧ pos < r.enqueuePos ∧ Published r claims pos

/-- The buffer returned by a pop spells the claiming message. -/
def Returned (claims : List LogMsg) (pos : Nat) (out : LogOut) : Prop :=
  ∃ m, claims[pos]? = some m ∧ StoresText out.text m ∧ out.level = m.level

/-- What the consumer may rely on at each program point. -/
def PopOk (r : LogRing) (claims : List LogMsg) (out : LogOut) : PopPc → Prop
  | .idle => True
  | .loadTail pos => pos = r.dequeuePos
  | .loadSeq pos => pos = r.dequeuePos ∧ pos < r.enqueuePos
  | .copyText pos i =>
      Taking r claims pos ∧ i ≤ nvLogMsgMax ∧ Copied r out pos i
  | .copyLevel pos => Taking r claims pos ∧ Copied r out pos nvLogMsgMax
  | .storeSeq pos =>
      Taking r claims pos ∧ Copied r out pos nvLogMsgMax ∧
        out.level = (r.slot pos).level
  | .storeHead pos =>
      pos = r.dequeuePos ∧ pos < r.enqueuePos ∧
        (r.slot pos).seq = pos + r.capacity ∧ Returned claims pos out
  | .ret _ => True

variable {Tid : Type u} [DecidableEq Tid]

/-- The invariant of the ring under DROP or BLOCK. -/
structure FifoInv (s : RingState Tid) : Prop where
  policy : s.policy ≠ .overwrite
  sized : s.ring.Sized
  le : s.ring.dequeuePos ≤ s.ring.enqueuePos
  bound : s.ring.enqueuePos ≤ s.ring.dequeuePos + s.ring.capacity
  claimed : s.claims.length = s.ring.enqueuePos
  free : ∀ p, s.ring.enqueuePos ≤ p →
    p < s.ring.dequeuePos + s.ring.capacity → (s.ring.slot p).seq = p
  busy : ∀ p, s.ring.dequeuePos ≤ p → p < s.ring.enqueuePos →
    Published s.ring s.claims p ∨
      (∃ t m, (s.push t).claim? = some (m, p)) ∨ s.pop = .storeHead p
  pushOk : ∀ t, PushOk s.ring s.claims (s.push t)
  uniq : ∀ t t' m m' p, (s.push t).claim? = some (m, p) →
    (s.push t').claim? = some (m', p) → t = t'
  popOk : PopOk s.ring s.claims s.out s.pop
  order : s.delivered.map Prod.fst = List.range s.ring.dequeuePos
  returned : ∀ x ∈ s.delivered, Returned s.claims x.1 x.2

/-- A producer between claim and publication holds its position. -/
theorem PushOk.held {pc : PushPc} (hok : PushOk r claims pc) (hclaim : pc.claim? = some (m, p)) :
    Held r claims m p := by
  cases pc <;> simp only [PushPc.claim?, Option.some.injEq, Prod.mk.injEq,
    reduceCtorEq] at hclaim <;> obtain ⟨rfl, rfl⟩ := hclaim
  case recheck => exact hok
  all_goals exact hok.1

/--
A producer's facts survive what the other threads do: counters grow, claims
are appended, and nobody else writes the slot it holds.
-/
theorem PushOk.mono {pc : PushPc} (hok : PushOk r claims pc) (hcap : r'.capacity = r.capacity)
    (htail : r.enqueuePos ≤ r'.enqueuePos) (hhead : r.dequeuePos ≤ r'.dequeuePos)
    (hclaims : ∀ (p : Nat) m, claims[p]? = some m → claims'[p]? = some m)
    (hslot : ∀ m p, pc.claim? = some (m, p) →
      r'.dequeuePos ≤ p ∧ r'.slot p = r.slot p) : PushOk r' claims' pc := by
  have hheld : ∀ m p, pc.claim? = some (m, p) → Held r' claims' m p := by
    intro m p hclaim
    obtain ⟨-, htl, hseq, hcl⟩ := hok.held hclaim
    obtain ⟨hd, heq⟩ := hslot m p hclaim
    exact ⟨hd, Nat.lt_of_lt_of_le htl htail, by rw [heq, hseq], hclaims p m hcl⟩
  cases pc with
  | loadHead m pos => exact Nat.le_trans hok htail
  | casTail m pos =>
      obtain ⟨hpos, hlt⟩ := hok
      refine ⟨Nat.le_trans hpos htail, ?_⟩
      rw [hcap]
      omega
  | spin m pos spins => exact ⟨hheld m pos rfl, hok.2⟩
  | recheck m pos => exact hheld m pos rfl
  | writeText m pos i => exact ⟨hheld m pos rfl, (hslot m pos rfl).2 ▸ hok.2⟩
  | writeNul m pos => exact ⟨hheld m pos rfl, (hslot m pos rfl).2 ▸ hok.2⟩
  | writeLevel m pos => exact ⟨hheld m pos rfl, (hslot m pos rfl).2 ▸ hok.2⟩
  | publish m pos => exact ⟨hheld m pos rfl, (hslot m pos rfl).2 ▸ hok.2⟩
  | _ => exact hok

/-- The consumer's facts survive a producer's step on another slot. -/
theorem PopOk.mono {out : LogOut} {pc : PopPc}
    (hok : PopOk r claims out pc) (hcap : r'.capacity = r.capacity)
    (htail : r.enqueuePos ≤ r'.enqueuePos) (hhead : r'.dequeuePos = r.dequeuePos)
    (hclaims : ∀ (p : Nat) m, claims[p]? = some m → claims'[p]? = some m)
    (hslot : r.dequeuePos < r.enqueuePos →
      (r.slot r.dequeuePos).seq ≠ r.dequeuePos →
      r'.slot r.dequeuePos = r.slot r.dequeuePos)
    (hpos : 0 < r.capacity) : PopOk r' claims' out pc := by
  have htaking : ∀ pos, Taking r claims pos →
      Taking r' claims' pos ∧ r'.slot pos = r.slot pos := by
    rintro pos ⟨rfl, hlt, hpub⟩
    have heq := hslot hlt (by rw [hpub.1]; omega)
    exact ⟨⟨hhead.symm, Nat.lt_of_lt_of_le hlt htail, hpub.mono (hclaims _) heq⟩, heq⟩
  cases pc with
  | idle => trivial
  | ret ok => trivial
  | loadTail pos => exact hok.trans hhead.symm
  | loadSeq pos => exact ⟨hok.1.trans hhead.symm, Nat.lt_of_lt_of_le hok.2 htail⟩
  | copyText pos i =>
      obtain ⟨ht, hi, hc⟩ := hok
      obtain ⟨ht', heq⟩ := htaking pos ht
      exact ⟨ht', hi, fun j hj => by rw [heq]; exact hc j hj⟩
  | copyLevel pos =>
      obtain ⟨ht, hc⟩ := hok
      obtain ⟨ht', heq⟩ := htaking pos ht
      exact ⟨ht', fun j hj => by rw [heq]; exact hc j hj⟩
  | storeSeq pos =>
      obtain ⟨ht, hc, hl⟩ := hok
      obtain ⟨ht', heq⟩ := htaking pos ht
      exact ⟨ht', fun j hj => by rw [heq]; exact hc j hj, by rw [heq]; exact hl⟩
  | storeHead pos =>
      obtain ⟨rfl, hlt, hseq, m, hcl, hst⟩ := hok
      have heq := hslot hlt (by rw [hseq]; omega)
      exact ⟨hhead.symm, Nat.lt_of_lt_of_le hlt htail,
        by rw [heq, hseq, hcap], m, hclaims _ m hcl, hst⟩

end Invariant

section Preservation

variable {Tid : Type u} [DecidableEq Tid] {s : RingState Tid} {m : LogMsg} {pc : PushPc} {t : Tid}
variable (hi : FifoInv s)
include hi

omit [DecidableEq Tid] in
theorem FifoInv.held_window {p : Nat} (hclaim : (s.push t).claim? = some (m, p)) :
    s.ring.dequeuePos ≤ p ∧ p < s.ring.enqueuePos ∧
      p < s.ring.dequeuePos + s.ring.capacity ∧
      (s.ring.slot p).seq = p ∧ s.claims[p]? = some m := by
  obtain ⟨hd, he, hseq, hcl⟩ := (hi.pushOk t).held hclaim
  exact ⟨hd, he, Nat.lt_of_lt_of_le he hi.bound, hseq, hcl⟩

omit [DecidableEq Tid] in
theorem FifoInv.with_dropped (n : Nat) : FifoInv { s with dropped := n } :=
  ⟨hi.policy, hi.sized, hi.le, hi.bound, hi.claimed, hi.free, hi.busy, hi.pushOk,
    hi.uniq, hi.popOk, hi.order, hi.returned⟩

/-- A producer that claims nothing new leaves every position with one holder. -/
theorem FifoInv.uniq_goto
    (hold : ∀ m p, pc.claim? = some (m, p) → (s.push t).claim? = some (m, p)) :
    ∀ u u' m m' p, ((s.goto t pc).push u).claim? = some (m, p) →
      ((s.goto t pc).push u').claim? = some (m', p) → u = u' := by
  have hkeep : ∀ u m p, ((s.goto t pc).push u).claim? = some (m, p) →
      (s.push u).claim? = some (m, p) :=
    forall_goto (P := fun u q => ∀ m p, q.claim? = some (m, p) →
      (s.push u).claim? = some (m, p)) hold fun _ _ _ _ h => h
  intro u u' m m' p h h'
  exact hi.uniq u u' m m' p (hkeep u m p h) (hkeep u' m' p h')

/-- A producer moves on without touching the ring. -/
theorem FifoInv.goto_local
    (hclaim : pc.claim? = (s.push t).claim?) (hok : PushOk s.ring s.claims pc) :
    FifoInv (s.goto t pc) := by
  have hsame : ∀ u, ((s.goto t pc).push u).claim? = (s.push u).claim? :=
    forall_goto (P := fun u q => q.claim? = (s.push u).claim?) hclaim fun _ _ => rfl
  refine ⟨hi.policy, hi.sized, hi.le, hi.bound, hi.claimed, hi.free, ?_, ?_, ?_,
    hi.popOk, hi.order, hi.returned⟩
  · intro p hd he
    have hbusy := hi.busy p hd he
    simp only [hsame]
    exact hbusy
  · exact forall_goto (P := fun _ => PushOk s.ring s.claims) hok fun u _ => hi.pushOk u
  · refine hi.uniq_goto ?_
    intro m p h
    rw [← hclaim, h]

/--
A producer writes the slot it holds.  The new program point either keeps
holding the position, or the slot is now published.
-/
theorem FifoInv.write_held {p : Nat}
    {f : LogSlot → LogSlot} (hclaim : (s.push t).claim? = some (m, p))
    (hpc : pc.claim? = some (m, p) ∨
      (pc.claim? = none ∧ Published (s.ring.setSlot p f) s.claims p))
    (hok : PushOk (s.ring.setSlot p f) s.claims pc) :
    FifoInv { s.goto t pc with ring := s.ring.setSlot p f } := by
  obtain ⟨hd, he, hwin, hseq, hcl⟩ := hi.held_window hclaim
  have hother : ∀ q, s.ring.dequeuePos ≤ q →
      q < s.ring.dequeuePos + s.ring.capacity → q ≠ p →
      (s.ring.setSlot p f).slot q = s.ring.slot q :=
    fun q hq hq' hne => slot_setSlot_window hi.sized f hd hwin hq hq' hne
  have hclaims : ∀ u, u ≠ t → ∀ m' q, (s.push u).claim? = some (m', q) → q ≠ p := by
    rintro u hu m' q hq rfl
    exact hu (hi.uniq u t m' m q hq hclaim)
  refine ⟨hi.policy, hi.sized, hi.le, hi.bound, hi.claimed, ?_, ?_, ?_, ?_, ?_,
    hi.order, hi.returned⟩
  · intro q hq hq'
    have hne : q ≠ p := by
      simp only [LogRing.setSlot] at hq
      omega
    have hdq : s.ring.dequeuePos ≤ q := Nat.le_trans hi.le hq
    show ((s.ring.setSlot p f).slot q).seq = q
    rw [hother q hdq hq' hne]
    exact hi.free q hq hq'
  · intro q hq hq'
    by_cases hqp : q = p
    · subst hqp
      rcases hpc with hpc | ⟨-, hpub⟩
      · right; left
        exact ⟨t, m, by rw [← hpc]; exact congrArg _ (goto_push_self t pc)⟩
      · exact Or.inl hpub
    · have hqw : q < s.ring.dequeuePos + s.ring.capacity :=
        Nat.lt_of_lt_of_le hq' hi.bound
      have hslot := hother q hq hqw hqp
      rcases hi.busy q hq hq' with hpub | ⟨u, m', hu⟩ | hpop
      · exact Or.inl (hpub.mono (fun _ h => h) hslot)
      · right; left
        have hut : u ≠ t := by
          rintro rfl
          rw [hclaim] at hu
          simp only [Option.some.injEq, Prod.mk.injEq] at hu
          exact hqp hu.2.symm
        exact ⟨u, m', by rw [← hu]; exact congrArg _ (goto_push_other hut pc)⟩
      · exact Or.inr (Or.inr hpop)
  · refine forall_goto (P := fun _ => PushOk (s.ring.setSlot p f) s.claims) hok ?_
    intro u hu
    refine (hi.pushOk u).mono rfl (Nat.le_refl _) (Nat.le_refl _) (fun _ _ h => h) ?_
    intro m' q hq
    obtain ⟨hd', -, hw', -, -⟩ := hi.held_window hq
    exact ⟨hd', hother q hd' hw' (hclaims u hu m' q hq)⟩
  · refine hi.uniq_goto ?_
    intro m' q h
    rcases hpc with hpc | ⟨hnone, -⟩
    · rw [hclaim, ← hpc, h]
    · rw [hnone] at h
      cases h
  · refine hi.popOk.mono rfl (Nat.le_refl _) rfl (fun _ _ h => h) ?_
      hi.sized.capacity_pos
    intro hlt hne
    refine hother _ (Nat.le_refl _) ?_ ?_
    · have := hi.sized.capacity_pos
      omega
    · rintro rfl
      exact hne hseq

/-- The position at `enqueue_pos` lies above every position that is already held. -/
theorem FifoInv.uniq_claim (hpc : pc.claim? = some (m, s.ring.enqueuePos)) :
    ∀ u u' m₁ m₂ q, ((s.goto t pc).push u).claim? = some (m₁, q) →
      ((s.goto t pc).push u').claim? = some (m₂, q) → u = u' := by
  have hholder : ∀ u m' q, ((s.goto t pc).push u).claim? = some (m', q) →
      u = t ∧ q = s.ring.enqueuePos ∨
        q < s.ring.enqueuePos ∧ (s.push u).claim? = some (m', q) := by
    refine forall_goto (P := fun u pc' => ∀ m' q, pc'.claim? = some (m', q) →
      u = t ∧ q = s.ring.enqueuePos ∨
        q < s.ring.enqueuePos ∧ (s.push u).claim? = some (m', q)) ?_ ?_
    · intro m' q h
      obtain ⟨-, rfl⟩ := Prod.mk.inj (Option.some.inj (hpc.symm.trans h))
      exact Or.inl ⟨rfl, rfl⟩
    · intro u _ m' q h
      exact Or.inr ⟨(hi.held_window h).2.1, h⟩
  intro u u' m₁ m₂ q h h'
  rcases hholder u m₁ q h with ⟨hu, hq⟩ | ⟨hq, hheld⟩
  · rcases hholder u' m₂ q h' with ⟨hu', -⟩ | ⟨hq', -⟩
    · rw [hu, hu']
    · omega
  · rcases hholder u' m₂ q h' with ⟨-, hq'⟩ | ⟨-, hheld'⟩
    · omega
    · exact hi.uniq u u' m₁ m₂ q hheld hheld'

theorem FifoInv.claim (hnone : (s.push t).claim? = none)
    (hroom : s.ring.enqueuePos < s.ring.dequeuePos + s.ring.capacity) :
    FifoInv
      { s.goto t (.spin m s.ring.enqueuePos 0) with
        ring := { s.ring with enqueuePos := s.ring.enqueuePos + 1 }
        claims := s.claims ++ [m] } := by
  have hgrow : ∀ (p : Nat) m', s.claims[p]? = some m' →
      (s.claims ++ [m])[p]? = some m' := by
    intro p m' h
    rw [List.getElem?_append_left]
    · exact h
    · exact (List.getElem?_eq_some_iff.mp h).1
  have hnew : (s.claims ++ [m])[s.ring.enqueuePos]? = some m := by
    rw [← hi.claimed]
    simp
  refine ⟨hi.policy, hi.sized, Nat.le_succ_of_le hi.le, hroom, ?_, ?_, ?_, ?_, ?_, ?_,
    hi.order, ?_⟩
  · simp [hi.claimed]
  · intro p hp hp'
    exact hi.free p (Nat.le_of_succ_le hp) hp'
  · intro p hd he
    rcases Nat.lt_succ_iff_lt_or_eq.mp he with he | rfl
    · rcases hi.busy p hd he with hpub | ⟨u, m', hu⟩ | hpop
      · exact Or.inl (hpub.mono (hgrow p) rfl)
      · right; left
        have hut : u ≠ t := by
          rintro rfl
          rw [hnone] at hu
          cases hu
        exact ⟨u, m', by rw [← hu]; exact congrArg _ (goto_push_other hut _)⟩
      · exact Or.inr (Or.inr hpop)
    · right; left
      exact ⟨t, m, congrArg _ (goto_push_self t _)⟩
  · refine forall_goto (P := fun _ => PushOk
      { s.ring with enqueuePos := s.ring.enqueuePos + 1 } (s.claims ++ [m])) ?_ ?_
    · refine ⟨⟨hi.le, Nat.lt_succ_self _, ?_, hnew⟩, rfl⟩
      exact hi.free _ (Nat.le_refl _) hroom
    · intro u _
      refine (hi.pushOk u).mono rfl (Nat.le_succ _) (Nat.le_refl _) hgrow ?_
      intro m' q hq
      exact ⟨(hi.held_window hq).1, rfl⟩
  · exact hi.uniq_claim rfl
  · exact hi.popOk.mono rfl (Nat.le_succ _) rfl hgrow (fun _ _ => rfl)
      hi.sized.capacity_pos
  · intro x hx
    obtain ⟨m', hc, hst⟩ := hi.returned x hx
    exact ⟨m', hgrow _ m' hc, hst⟩

omit [DecidableEq Tid] in
/-- The consumer moves on without touching the ring. -/
theorem FifoInv.pop_local {pc : PopPc} {out : LogOut}
    (hpop : ∀ p, s.pop ≠ .storeHead p) (hok : PopOk s.ring s.claims out pc) :
    FifoInv { s with pop := pc, out := out } := by
  refine ⟨hi.policy, hi.sized, hi.le, hi.bound, hi.claimed, hi.free, ?_, hi.pushOk,
    hi.uniq, hok, hi.order, hi.returned⟩
  intro p hd he
  rcases hi.busy p hd he with hpub | hheld | hstore
  · exact Or.inl hpub
  · exact Or.inr (Or.inl hheld)
  · exact absurd hstore (hpop p)

omit [DecidableEq Tid] in
/-- The consumer hands the slot over to the next lap. -/
theorem FifoInv.pop_storeSeq {pos : Nat} (hpop : s.pop = .storeSeq pos) :
    FifoInv
      { s with
        pop := .storeHead pos
        ring := s.ring.setSlot pos
          fun x => { x with seq := pos + s.ring.capacity } } := by
  have hok := hi.popOk
  rw [hpop] at hok
  obtain ⟨⟨rfl, hlt, hseq, m, hcl, ⟨hpre, hnul⟩, hlevel⟩, hcopied, hout⟩ := hok
  have hcap := hi.sized.capacity_pos
  have hlen : m.text.length < nvLogMsgMax := by
    have := CString.length_take_le m.line (nvLogMsgMax - 1)
    simp only [LogMsg.text, nvLogMsgMax] at this ⊢
    omega
  have hother : ∀ q, s.ring.dequeuePos ≤ q →
      q < s.ring.dequeuePos + s.ring.capacity → q ≠ s.ring.dequeuePos →
      (s.ring.setSlot s.ring.dequeuePos
        fun x => { x with seq := s.ring.dequeuePos + s.ring.capacity }).slot q =
      s.ring.slot q :=
    fun q hq hq' hne =>
      slot_setSlot_window hi.sized _ (Nat.le_refl _) (by omega) hq hq' hne
  have hheldNe : ∀ u m' q, (s.push u).claim? = some (m', q) →
      q ≠ s.ring.dequeuePos := by
    rintro u m' q hq rfl
    have := (hi.held_window hq).2.2.2.1
    omega
  refine ⟨hi.policy, hi.sized, hi.le, hi.bound, hi.claimed, ?_, ?_, ?_, hi.uniq, ?_,
    hi.order, hi.returned⟩
  · intro q hq hq'
    have hdq : s.ring.dequeuePos < q := Nat.lt_of_lt_of_le hlt hq
    show (LogRing.slot _ q).seq = q
    rw [hother q (Nat.le_of_lt hdq) hq' (Nat.ne_of_gt hdq)]
    exact hi.free q hq hq'
  · intro q hq hq'
    by_cases hqd : q = s.ring.dequeuePos
    · subst hqd
      exact Or.inr (Or.inr rfl)
    · have hqw : q < s.ring.dequeuePos + s.ring.capacity :=
        Nat.lt_of_lt_of_le hq' hi.bound
      have hslot := hother q hq hqw hqd
      rcases hi.busy q hq hq' with hpub | hheld | hstore
      · exact Or.inl (hpub.mono (fun _ h => h) hslot)
      · exact Or.inr (Or.inl hheld)
      · rw [hpop] at hstore
        cases hstore
  · intro u
    refine (hi.pushOk u).mono rfl (Nat.le_refl _) (Nat.le_refl _) (fun _ _ h => h) ?_
    intro m' q hq
    obtain ⟨hd', -, hw', -, -⟩ := hi.held_window hq
    exact ⟨hd', hother q hd' hw' (hheldNe u m' q hq)⟩
  · refine ⟨rfl, hlt, ?_, m, hcl, ⟨?_, ?_⟩, ?_⟩
    · rw [slot_setSlot_self]
      rfl
    · intro j b hj hlt'
      rw [hcopied j (Nat.lt_trans hlt' hlen)]
      exact hpre j b hj hlt'
    · rw [hcopied _ hlen]
      exact hnul
    · exact hout.trans hlevel

omit [DecidableEq Tid] in
/-- The consumer advances `dequeue_pos`, and the window slides by one. -/
theorem FifoInv.pop_storeHead {pos : Nat} (hpop : s.pop = .storeHead pos) :
    FifoInv
      { s with
        pop := .ret true
        ring := { s.ring with dequeuePos := pos + 1 }
        delivered := s.delivered ++ [(pos, s.out)] } := by
  have hok := hi.popOk
  rw [hpop] at hok
  obtain ⟨rfl, hlt, hseq, hret⟩ := hok
  have hcap := hi.sized.capacity_pos
  refine ⟨hi.policy, hi.sized, hlt, ?_, hi.claimed, ?_, ?_, ?_, hi.uniq, trivial, ?_, ?_⟩
  · have := hi.bound
    show s.ring.enqueuePos ≤ s.ring.dequeuePos + 1 + s.ring.capacity
    omega
  · intro p hp hp'
    rcases Nat.lt_or_ge p (s.ring.dequeuePos + s.ring.capacity) with hw | hw
    · exact hi.free p hp hw
    · -- the position one lap ahead reuses the slot just released
      have hlap : p = s.ring.dequeuePos + s.ring.capacity := by
        have : p < s.ring.dequeuePos + 1 + s.ring.capacity := hp'
        omega
      subst hlap
      show (s.ring.slot (s.ring.dequeuePos + s.ring.capacity)).seq = _
      rw [slot_next_lap hi.sized, hseq]
  · intro p hd he
    rcases hi.busy p (Nat.le_of_succ_le hd) he with hpub | hheld | hstore
    · exact Or.inl hpub
    · exact Or.inr (Or.inl hheld)
    · rw [hpop] at hstore
      cases hstore
      exact absurd hd (Nat.not_succ_le_self _)
  · intro u
    refine (hi.pushOk u).mono rfl (Nat.le_refl _) (Nat.le_succ _) (fun _ _ h => h) ?_
    intro m' q hq
    obtain ⟨hd', -, -, hs', -⟩ := hi.held_window hq
    have hne : q ≠ s.ring.dequeuePos := by
      rintro rfl
      omega
    exact ⟨Nat.lt_of_le_of_ne hd' (Ne.symm hne), rfl⟩
  · simp [hi.order, List.range_succ]
  · intro x hx
    rcases List.mem_append.mp hx with hx | hx
    · exact hi.returned x hx
    · simp only [List.mem_singleton] at hx
      subst hx
      exact hret

theorem FifoInv.pushStep (t : Tid) (spurious : Bool) : FifoInv (pushStep s t spurious) := by
  have hok := hi.pushOk t
  cases hpc : s.push t with (rw [hpc] at hok; simp only [Log.pushStep, hpc])
  | idle => exact hi
  | entry line level =>
      cases line with
      | none => exact hi.goto_local (hpc ▸ rfl) trivial
      | some line =>
          dsimp only
          split
          · split
            · exact hi.goto_local (hpc ▸ rfl) trivial
            · exact hi.goto_local (hpc ▸ rfl) trivial
          · exact hi.goto_local (hpc ▸ rfl) trivial
  | loadTail m => exact hi.goto_local (hpc ▸ rfl) (Nat.le_refl _)
  | loadHead m pos =>
      split
      · have hpolicy := hi.policy
        cases hp : s.policy with
        | drop => exact hi.goto_local (hpc ▸ rfl) trivial
        | block => exact hi.goto_local (hpc ▸ rfl) trivial
        | overwrite => exact absurd hp hpolicy
      · rename_i hfull
        exact hi.goto_local (hpc ▸ rfl) ⟨hok, lt_of_not_ringFull hfull⟩
  | casHead m pos head => exact hok.elim
  | countDiscard m head => exact hok.elim
  | releaseSlot m head => exact hok.elim
  | casTail m pos =>
      split
      · rename_i hcas
        obtain ⟨rfl, -⟩ := hcas
        exact hi.claim (hpc ▸ rfl) hok.2
      · exact hi.goto_local (hpc ▸ rfl) trivial
  | spin m pos spins =>
      obtain ⟨hheld, -⟩ := hok
      simp only [hheld.2.2.1, if_true]
      exact hi.goto_local (hpc ▸ rfl) hheld
  | recheck m pos =>
      simp only [hok.2.2.1, if_true]
      exact hi.goto_local (hpc ▸ rfl) ⟨hok, fun j b _ hj => absurd hj (by omega)⟩
  | writeText m pos i =>
      obtain ⟨hheld, hpre⟩ := hok
      cases hb : m.text.bytes[i]? with
      | some b =>
          refine hi.write_held (hpc ▸ rfl) (Or.inl rfl) ⟨hheld.setSlot fun _ => rfl, ?_⟩
          rw [slot_setSlot_self]
          exact hpre.store hb
      | none => exact hi.goto_local (hpc ▸ rfl) ⟨hheld, hpre.of_none hb⟩
  | writeNul m pos =>
      obtain ⟨hheld, hpre⟩ := hok
      refine hi.write_held (hpc ▸ rfl) (Or.inl rfl) ⟨hheld.setSlot fun _ => rfl, ?_⟩
      rw [slot_setSlot_self]
      exact hpre.store_nul
  | writeLevel m pos =>
      obtain ⟨hheld, htext⟩ := hok
      refine hi.write_held (hpc ▸ rfl) (Or.inl rfl) ⟨hheld.setSlot fun _ => rfl, ?_⟩
      rw [slot_setSlot_self]
      exact ⟨htext, rfl⟩
  | publish m pos =>
      obtain ⟨⟨-, -, -, hcl⟩, htext, hlevel⟩ := hok
      refine hi.write_held (by rw [hpc]; rfl) (Or.inr ⟨rfl, ?_⟩) trivial
      unfold Published
      rw [slot_setSlot_self]
      exact ⟨rfl, m, hcl, htext, hlevel⟩
  | reloadTail pos => exact hi.goto_local (hpc ▸ rfl) trivial
  | reloadHead pos tail =>
      split
      · exact hi.goto_local (hpc ▸ rfl) trivial
      · exact hi.goto_local (hpc ▸ rfl) trivial
  | signal pos => exact hi.goto_local (hpc ▸ rfl) trivial
  | drop =>
      have hlocal : FifoInv (s.goto t (.ret (-1) none)) :=
        hi.goto_local (hpc ▸ rfl) trivial
      exact hlocal.with_dropped _
  | dropTimeout pos => exact hok.elim
  | ret rc pos => exact hi.goto_local (hpc ▸ rfl) trivial

omit [DecidableEq Tid] in
theorem FifoInv.popStep : FifoInv (popStep s) := by
  have hok := hi.popOk
  cases hpc : s.pop with (rw [hpc] at hok; simp only [Log.popStep, hpc])
  | idle => exact hi.pop_local (by simp [hpc]) rfl
  | loadTail pos =>
      split
      · exact hi.pop_local (by simp [hpc]) trivial
      · rename_i hlt
        exact hi.pop_local (by simp [hpc]) ⟨hok, Nat.lt_of_not_le hlt⟩
  | loadSeq pos =>
      obtain ⟨rfl, hlt⟩ := hok
      split
      · exact hi.pop_local (by simp [hpc]) trivial
      · rename_i hseq
        have hseq' : (s.ring.slot s.ring.dequeuePos).seq = s.ring.dequeuePos + 1 := by
          simpa using hseq
        refine hi.pop_local (by simp [hpc])
          ⟨⟨rfl, hlt, ?_⟩, Nat.zero_le _, fun j hj => absurd hj (by omega)⟩
        rcases hi.busy _ (Nat.le_refl _) hlt with hpub | ⟨u, m, hu⟩ | hstore
        · exact hpub
        · have := (hi.held_window hu).2.2.2.1
          omega
        · rw [hpc] at hstore
          cases hstore
  | copyText pos i =>
      obtain ⟨htake, hi', hcop⟩ := hok
      split
      · rename_i hlt
        refine hi.pop_local (by simp [hpc]) ⟨htake, hlt, ?_⟩
        intro j hj
        by_cases hji : j = i
        · simp [hji]
        · simp only [hji, if_false]
          exact hcop j (by omega)
      · rename_i hge
        have heq : i = nvLogMsgMax := by omega
        exact hi.pop_local (by simp [hpc]) ⟨htake, heq ▸ hcop⟩
  | copyLevel pos => exact hi.pop_local (by simp [hpc]) ⟨hok.1, hok.2, rfl⟩
  | storeSeq pos => exact hi.pop_storeSeq hpc
  | storeHead pos => exact hi.pop_storeHead hpc
  | ret ok => exact hi.pop_local (by simp [hpc]) trivial

/-- Step lemma: every action keeps the invariant. -/
theorem FifoInv.step (a : RingAction Tid) : FifoInv (ringStep s a) := by
  cases a with
  | call t line level =>
      simp only [ringStep, pushCall]
      cases hpc : s.push t with
      | idle => exact hi.goto_local (hpc ▸ rfl) trivial
      | _ => exact hi
  | push t spurious => exact hi.pushStep t spurious
  | pop => exact hi.popStep

end Preservation

section Runs

variable {Tid : Type u} [DecidableEq Tid]

omit [DecidableEq Tid] in
theorem ringInit_fifoInv (queueSize : Nat) {policy : LogOverflow} (hpolicy : policy ≠ .overwrite) :
    FifoInv (ringInit queueSize policy : RingState Tid) := by
  have hsized := nvLogRingInit_sized queueSize
  refine ⟨hpolicy, hsized, Nat.le_refl _, Nat.zero_le _, rfl, ?_, ?_, ?_, ?_, trivial,
    rfl, ?_⟩
  · intro p _ hp
    obtain ⟨k, hcap, hmask⟩ := hsized
    have hlt : p < 2 ^ k := by
      rw [← hcap]
      simpa [ringInit, nvLogRingInit] using hp
    show p &&& (nvLogRingInit queueSize).mask = p
    rw [hmask, Nat.and_two_pow_sub_one_eq_mod, Nat.mod_eq_of_lt hlt]
  · intro p _ he
    exact absurd he (Nat.not_lt_zero p)
  · intro t
    trivial
  · intro t t' m m' p h
    simp [ringInit, PushPc.claim?] at h
  · simp [ringInit]

/-- Run lemma: the invariant holds in every reachable state. -/
theorem fifoInv_run (queueSize : Nat) {policy : LogOverflow} (hpolicy : policy ≠ .overwrite)
    (as : List (RingAction Tid)) :
    FifoInv (Transition.run ringStep (ringInit queueSize policy) as) := by
  have hstep : ∀ (s : RingState Tid) a, FifoInv s → FifoInv (ringStep s a) :=
    fun _ a hs => hs.step a
  exact Transition.run_invariant hstep (ringInit_fifoInv queueSize hpolicy) as

/-- A returned buffer, read as a C string, is the stored part of the line. -/
theorem returned_text {claims : List LogMsg} {pos : Nat} {out : LogOut}
    (hret : Returned claims pos out) :
    ∃ m, claims[pos]? = some m ∧
      CString.ofBuffer ((List.range nvLogMsgMax).map out.text) =
        m.line.take (nvLogMsgMax - 1) ∧
      out.level = m.level := by
  obtain ⟨m, hcl, ⟨hpre, hnul⟩, hlevel⟩ := hret
  refine ⟨m, hcl, ?_, hlevel⟩
  refine CString.ofBuffer_map_range (s := m.text) ?_ ?_ hnul
  · have := CString.length_take_le m.line (nvLogMsgMax - 1)
    simp only [LogMsg.text, nvLogMsgMax] at this ⊢
    omega
  · intro j b hj
    exact hpre j b hj (List.getElem?_eq_some_iff.mp hj).1

omit [DecidableEq Tid] in
/-- The `k`-th successful pop returned what claimed position `k`. -/
theorem FifoInv.delivered_get {s : RingState Tid} (hi : FifoInv s) {k : Nat} {x : Nat × LogOut}
    (hx : s.delivered[k]? = some x) :
    x.1 = k ∧
      ∃ m, s.claims[k]? = some m ∧
        CString.ofBuffer ((List.range nvLogMsgMax).map x.2.text) =
          m.line.take (nvLogMsgMax - 1) ∧
        x.2.level = m.level := by
  have hpos : x.1 = k := by
    have hk : (s.delivered.map Prod.fst)[k]? = some x.1 := by simp [hx]
    rw [hi.order] at hk
    obtain ⟨hlt, heq⟩ := List.getElem?_eq_some_iff.mp hk
    rw [List.getElem_range] at heq
    exact heq.symm
  have hret := hi.returned x (List.mem_of_getElem? hx)
  rw [hpos] at hret
  exact ⟨hpos, returned_text hret⟩

/--
Under DROP or BLOCK the ring is a bounded FIFO.  In every reachable state the
counters stay within one capacity of each other, a producer that has claimed a
position finds its slot free at once, and the `k`-th successful pop returned
the text and level of the message that claimed position `k`.
-/
theorem nvLogRing_bounded_fifo
    (queueSize : Nat)
    (policy : LogOverflow)
    (hpolicy : policy = .drop ∨ policy = .block)
    (as : List (RingAction Tid)) :
    let s := Transition.run ringStep (ringInit queueSize policy) as
    (s.ring.dequeuePos ≤ s.ring.enqueuePos ∧
      s.ring.enqueuePos ≤ s.ring.dequeuePos + s.ring.capacity) ∧
    (∀ t m p, (s.push t).claim? = some (m, p) →
      (s.ring.slot p).seq = p ∧ s.claims[p]? = some m) ∧
    (∀ t m p spins, s.push t = .spin m p spins → spins = 0) ∧
    (∀ t p, s.push t ≠ .dropTimeout p) ∧
    s.claims.length = s.ring.enqueuePos ∧
    s.delivered.length = s.ring.dequeuePos ∧
    ∀ (k : Nat) (x : Nat × LogOut), s.delivered[k]? = some x →
      x.1 = k ∧
      ∃ m, s.claims[k]? = some m ∧
        CString.ofBuffer ((List.range nvLogMsgMax).map x.2.text) =
          m.line.take (nvLogMsgMax - 1) ∧
        x.2.level = m.level := by
  intro s
  have hne : policy ≠ .overwrite := by
    rcases hpolicy with rfl | rfl <;> simp
  have hi : FifoInv s := fifoInv_run queueSize hne as
  refine ⟨⟨hi.le, hi.bound⟩, ?_, ?_, ?_, hi.claimed, ?_, ?_⟩
  · intro t m p hclaim
    obtain ⟨-, -, -, hseq, hcl⟩ := hi.held_window hclaim
    exact ⟨hseq, hcl⟩
  · intro t m p spins hpc
    have hok := hi.pushOk t
    rw [hpc] at hok
    exact hok.2
  · intro t p hpc
    have hok := hi.pushOk t
    rw [hpc] at hok
    exact hok
  · have := congrArg List.length hi.order
    simpa using this
  · intro k x hx
    exact hi.delivered_get hx

/-- Another line of one byte. -/
def lineB : CString := ⟨[66], by decide⟩

def pushShort (line : CString) : List (RingAction Unit) :=
  RingAction.call () (some line) .info :: List.replicate 15 (RingAction.push () false)

/-- Two lines are pushed, and the first one is popped. -/
def pushTwoPopOne : List (RingAction Unit) :=
  pushShort lineA ++ pushShort lineB ++ List.replicate 3 RingAction.pop ++
    List.replicate nvLogMsgMax RingAction.pop ++ List.replicate 4 RingAction.pop

theorem run_pushTwoPopOne :
    let s : RingState Unit := Transition.run ringStep (ringInit 64 .drop) pushTwoPopOne
    s.ring.enqueuePos = 2 ∧ s.ring.dequeuePos = 1 ∧ s.claims[0]? = some ⟨lineA, .info⟩ := by
  dsimp only [pushTwoPopOne]
  rw [Transition.run_append, Transition.run_append _ _ (List.replicate nvLogMsgMax _),
    run_copyText (by decide +kernel : _ = PopPc.copyText 0 0) (Nat.le_refl _)]
  decide +kernel

/-- Two lines are pushed under DROP, and the first one is popped. -/
theorem nvLogRing_bounded_fifo_two_lines :
    let s : RingState Unit := Transition.run ringStep (ringInit 64 .drop) pushTwoPopOne
    s.ring.enqueuePos = 2 ∧
      ∃ out, s.delivered = [(0, out)] ∧
        CString.ofBuffer ((List.range nvLogMsgMax).map out.text) = lineA := by
  have hfifo := nvLogRing_bounded_fifo 64 .drop (Or.inl rfl) pushTwoPopOne
  have hrun := run_pushTwoPopOne
  dsimp only at hfifo hrun ⊢
  -- the rest holds for any final state with these counters
  generalize Transition.run ringStep (ringInit 64 .drop) pushTwoPopOne = s at hfifo hrun ⊢
  obtain ⟨-, -, -, -, -, hcount, hdelivered⟩ := hfifo
  obtain ⟨hpushed, hpopped, hclaim⟩ := hrun
  obtain ⟨⟨p, x⟩, hx⟩ := List.length_eq_one_iff.mp (hcount.trans hpopped)
  obtain ⟨rfl, m, hm, htext, -⟩ := hdelivered 0 (p, x) (congrArg (·[0]?) hx)
  obtain rfl : m = ⟨lineA, .info⟩ := Option.some.inj (hm.symm.trans hclaim)
  exact ⟨hpushed, x, hx, htext⟩
end Runs

end Libnv.Log
