import Mathlib.Logic.Function.Iterate
import Mathlib.Data.List.Basic

/-!
# Cyclic redundancy checks

A reflected register of width `w`, for any polynomial `p`.  A bit of the message is
added to the lowest position and the register shifted once; when a one leaves the
register, `p` is added.  Addition is exclusive or.

The register is additive, so two messages of one length are told apart exactly when
their difference, fed to the zero register, does not end in zero.  A polynomial with
a constant term detects every burst of at most `w` bits, and one that is divisible
by `x + 1` every odd number of errors.
-/

namespace Libnv.Crc

variable {w : Nat}

def shift (p s : BitVec w) : BitVec w :=
  if s.getLsbD 0 then (s >>> 1) ^^^ p else s >>> 1

/-- A bit in the lowest position. -/
def lowest (w : Nat) (b : Bool) : BitVec w :=
  (BitVec.ofBool b).setWidth w

/-- A bit of the message enters. -/
def push (p s : BitVec w) (b : Bool) : BitVec w :=
  shift p (s ^^^ lowest w b)

/-- The bits of a message enter one after the other. -/
def feed (p s : BitVec w) (bits : List Bool) : BitVec w :=
  bits.foldl (push p) s

@[simp] theorem feed_nil (p s : BitVec w) : feed p s [] = s := rfl

@[simp] theorem feed_cons (p s : BitVec w) (b : Bool) (bits : List Bool) :
    feed p s (b :: bits) = feed p (push p s b) bits := rfl

@[simp] theorem feed_append (p s : BitVec w) (xs ys : List Bool) :
    feed p s (xs ++ ys) = feed p (feed p s xs) ys :=
  List.foldl_append

theorem getLsbD_shift (p s : BitVec w) (i : Nat) :
    (shift p s).getLsbD i = (s.getLsbD (i + 1) ^^ (s.getLsbD 0 && p.getLsbD i)) := by
  unfold shift
  cases s.getLsbD 0 <;> simp [Nat.add_comm 1 i]

theorem getLsbD_lowest (b : Bool) (i : Nat) :
    (lowest w b).getLsbD i = (decide (i < w) && (decide (i = 0) && b)) := by
  cases b <;> simp [lowest]

theorem lowest_false : lowest w false = 0#w := by
  apply BitVec.eq_of_getLsbD_eq
  intro i hi
  simp [getLsbD_lowest]

@[simp] theorem push_false (p s : BitVec w) : push p s false = shift p s := by
  rw [push, lowest_false, BitVec.xor_zero]

section Additive

variable {xs ys : List Bool}

theorem shift_zero (p : BitVec w) : shift p 0#w = 0#w := by
  simp [shift]

theorem shift_xor (p s t : BitVec w) : shift p (s ^^^ t) = shift p s ^^^ shift p t := by
  apply BitVec.eq_of_getLsbD_eq
  intro i hi
  simp only [getLsbD_shift, BitVec.getLsbD_xor]
  cases s.getLsbD 0 <;> cases t.getLsbD 0 <;> cases p.getLsbD i <;> simp

theorem lowest_xor (b c : Bool) : lowest w (b ^^ c) = lowest w b ^^^ lowest w c := by
  apply BitVec.eq_of_getLsbD_eq
  intro i hi
  cases b <;> cases c <;> simp [getLsbD_lowest]

theorem push_xor (p s t : BitVec w) (b c : Bool) :
    push p (s ^^^ t) (b ^^ c) = push p s b ^^^ push p t c := by
  have hswap : (s ^^^ t) ^^^ (lowest w b ^^^ lowest w c) =
      (s ^^^ lowest w b) ^^^ (t ^^^ lowest w c) := by
    ac_rfl
  rw [push, lowest_xor, hswap, shift_xor]
  rfl

/-- The difference of two messages leads to the difference of the registers. -/
theorem feed_xor (p s t : BitVec w) (hlen : xs.length = ys.length) :
    feed p (s ^^^ t) (List.zipWith xor xs ys) = feed p s xs ^^^ feed p t ys := by
  induction xs generalizing s t ys with
  | nil =>
      obtain rfl : ys = [] := List.eq_nil_of_length_eq_zero hlen.symm
      rfl
  | cons x xs ih =>
      cases ys with
      | nil => cases hlen
      | cons y ys =>
          rw [List.zipWith_cons_cons, feed_cons, push_xor]
          exact ih _ _ (Nat.succ.inj hlen)

/-- Two messages are told apart when the zero register tells their difference from zero. -/
theorem feed_ne_of_difference {p : BitVec w} (hlen : xs.length = ys.length)
    (hne : feed p 0#w (List.zipWith xor xs ys) ≠ 0#w) (s : BitVec w) :
    feed p s xs ≠ feed p s ys := by
  intro heq
  have hdiff := feed_xor p s s hlen
  rw [heq, BitVec.xor_self, BitVec.xor_self] at hdiff
  exact hne hdiff

/-- Different messages of one length differ in a bit. -/
theorem true_mem_zipWith_xor (hlen : xs.length = ys.length) (hne : xs ≠ ys) :
    true ∈ List.zipWith xor xs ys := by
  induction xs generalizing ys with
  | nil => exact absurd (List.eq_nil_of_length_eq_zero hlen.symm).symm hne
  | cons x xs ih =>
      cases ys with
      | nil => cases hlen
      | cons y ys =>
          rw [List.zipWith_cons_cons, List.mem_cons]
          by_cases hxy : x = y
          · subst hxy
            exact Or.inr (ih (Nat.succ.inj hlen) fun h => hne (congrArg (List.cons x) h))
          · have hxor : (x ^^ y) = true := by simpa using hxy
            exact Or.inl hxor.symm

end Additive

/-- Several bits may be added at once, if the register is shifted afterwards. -/
theorem iterate_shift_xor (p s c : BitVec w) (k : Nat) :
    (shift p)^[k] (s ^^^ c) = feed p s ((List.range k).map c.getLsbD) ^^^ (c >>> k) := by
  induction k generalizing s c with
  | zero => simp
  | succ k ih =>
      -- the lowest bit of `c` enters now, the others one position further down
      have hfirst : shift p (s ^^^ c) = push p s (c.getLsbD 0) ^^^ (c >>> 1) := by
        apply BitVec.eq_of_getLsbD_eq
        intro i hi
        have hpos : 0 < w := Nat.zero_lt_of_lt hi
        simp only [push, getLsbD_shift, BitVec.getLsbD_xor, getLsbD_lowest,
          BitVec.getLsbD_ushiftRight, Nat.add_comm 1 i]
        cases s.getLsbD (i + 1) <;> cases c.getLsbD (i + 1) <;> simp [hpos]
      have hbits : (List.range (k + 1)).map c.getLsbD =
          c.getLsbD 0 :: (List.range k).map (c >>> 1).getLsbD := by
        rw [List.range_succ_eq_map, List.map_cons, List.map_map]
        congr 1
        apply List.map_congr_left
        intro i _
        simp [Nat.add_comm 1 i]
      rw [Function.iterate_succ_apply, hfirst, ih, hbits, feed_cons, Nat.add_comm k 1,
        BitVec.shiftRight_add]

section Burst

variable {p : BitVec w} {bits : List Bool} {k : Nat} {s : BitVec w}

/-- With a constant term in `p`, a one that leaves the register shows in its highest bit. -/
theorem ushiftRight_of_shift (hp : p.msb = true) (hk : k < w) (h : shift p s >>> k = 0#w) :
    s >>> (k + 1) = 0#w ∧ s.getLsbD 0 = false := by
  have hbit (i : Nat) : (s.getLsbD (k + i + 1) ^^ (s.getLsbD 0 && p.getLsbD (k + i))) = false := by
    rw [← getLsbD_shift, ← BitVec.getLsbD_ushiftRight, h, BitVec.getLsbD_zero]
  have hlow : s.getLsbD 0 = false := by
    have htop := hbit (w - 1 - k)
    rw [show k + (w - 1 - k) = w - 1 by omega, ← BitVec.msb_eq_getLsbD_last, hp,
      BitVec.getLsbD_of_ge s (w - 1 + 1) (by omega)] at htop
    simpa using htop
  refine ⟨BitVec.eq_of_getLsbD_eq fun i _ => ?_, hlow⟩
  have hi := hbit i
  rw [hlow, Bool.false_and, Bool.xor_false] at hi
  rw [BitVec.getLsbD_ushiftRight, BitVec.getLsbD_zero, Nat.add_right_comm]
  exact hi

theorem ushiftRight_of_push (hp : p.msb = true) {b : Bool} (hk : k < w)
    (h : push p s b >>> k = 0#w) : s >>> (k + 1) = 0#w := by
  obtain ⟨hhigh, -⟩ := ushiftRight_of_shift hp hk h
  apply BitVec.eq_of_getLsbD_eq
  intro i hi
  have hbit := congrArg (fun v => v.getLsbD i) hhigh
  simpa [BitVec.getLsbD_ushiftRight, getLsbD_lowest] using hbit

/-- No more bits than the register has positions can take it to zero only from the lowest ones. -/
theorem ushiftRight_of_feed_eq_zero (hp : p.msb = true)
    (hlen : bits.length ≤ w) (h : feed p s bits = 0#w) : s >>> bits.length = 0#w := by
  induction bits generalizing s with
  | nil => simpa using h
  | cons b bits ih => exact ushiftRight_of_push hp hlen (ih (Nat.le_of_succ_le hlen) h)

theorem feed_replicate_false_zero (n : Nat) : feed p 0#w (List.replicate n false) = 0#w := by
  induction n with
  | zero => rfl
  | succ n ih => rw [List.replicate_succ, feed_cons, push_false, shift_zero, ih]

theorem eq_zero_of_feed_replicate_false (hp : p.msb = true) {n : Nat}
    (h : feed p s (List.replicate n false) = 0#w) : s = 0#w := by
  induction n generalizing s with
  | zero => exact h
  | succ n ih =>
      rw [List.replicate_succ, feed_cons, push_false] at h
      have hshift : shift p s >>> 0 = 0#w := by rw [ih h, BitVec.ushiftRight_zero]
      have hpos : 0 < w := by
        rcases Nat.eq_zero_or_pos w with rfl | hpos
        · simp [BitVec.of_length_zero] at hp
        · exact hpos
      obtain ⟨hhigh, hlow⟩ := ushiftRight_of_shift hp hpos hshift
      apply BitVec.eq_of_getLsbD_eq
      intro i hi
      cases i with
      | zero => simpa using hlow
      | succ i =>
          have hbit := congrArg (fun v => v.getLsbD i) hhigh
          simpa [BitVec.getLsbD_ushiftRight, Nat.add_comm 1 i] using hbit

theorem feed_burst_ne_zero (hp : p.msb = true) {burst : List Bool} (hlen : burst.length < w)
    (before after : Nat) :
    feed p 0#w (List.replicate before false ++ true :: burst ++ List.replicate after false) ≠
      0#w := by
  intro h
  rw [feed_append, feed_append, feed_replicate_false_zero, feed_cons] at h
  have hburst := ushiftRight_of_feed_eq_zero hp (Nat.le_of_lt hlen)
    (eq_zero_of_feed_replicate_false hp h)
  obtain ⟨-, hlow⟩ := ushiftRight_of_shift hp hlen hburst
  rw [BitVec.zero_xor, getLsbD_lowest] at hlow
  simp [Nat.zero_lt_of_lt hlen] at hlow

/-- Errors within `w` consecutive positions are a burst. -/
theorem burst_of_window {start : Nat} (hone : true ∈ bits)
    (hwindow : ∀ i, bits[i]? = some true → start ≤ i ∧ i < start + w) :
    ∃ before burst after, burst.length < w ∧
      bits = List.replicate before false ++ true :: burst ++ List.replicate after false := by
  obtain ⟨left, right, rfl, hleft⟩ := List.eq_append_cons_of_mem hone
  have hbefore : left = List.replicate left.length false := by
    refine List.eq_replicate_iff.mpr ⟨rfl, fun b hb => ?_⟩
    cases b with
    | false => rfl
    | true => exact absurd hb hleft
  obtain ⟨hstart, hend⟩ := hwindow left.length (by simp)
  have hafter : right.drop (w - 1) = List.replicate (right.drop (w - 1)).length false := by
    refine List.eq_replicate_iff.mpr ⟨rfl, fun b hb => ?_⟩
    cases b with
    | false => rfl
    | true =>
        obtain ⟨j, hj⟩ := List.getElem?_of_mem hb
        rw [List.getElem?_drop] at hj
        obtain ⟨-, hlt⟩ := hwindow (left.length + (w - 1 + j + 1)) (by
          rw [List.getElem?_append_right (Nat.le_add_right ..), Nat.add_sub_cancel_left,
            List.getElem?_cons_succ, hj])
        omega
  refine ⟨left.length, right.take (w - 1), (right.drop (w - 1)).length, ?_, ?_⟩
  · rw [List.length_take]
    omega
  · rw [← hbefore, ← hafter, List.append_assoc, List.cons_append, List.take_append_drop]

end Burst

section Parity

/-- The sum of the first bits of a sequence. -/
def sumBelow (f : Nat → Bool) : Nat → Bool
  | 0 => false
  | n + 1 => sumBelow f n ^^ f n

theorem sumBelow_xor (f g : Nat → Bool) (n : Nat) :
    sumBelow (fun i => f i ^^ g i) n = (sumBelow f n ^^ sumBelow g n) := by
  induction n with
  | zero => rfl
  | succ n ih =>
      simp only [sumBelow, ih]
      cases sumBelow f n <;> cases sumBelow g n <;> cases f n <;> cases g n <;> rfl

theorem sumBelow_succ_eq (f : Nat → Bool) (n : Nat) :
    sumBelow f (n + 1) = (f 0 ^^ sumBelow (fun i => f (i + 1)) n) := by
  induction n with
  | zero => simp [sumBelow]
  | succ n ih => rw [sumBelow, ih, sumBelow, Bool.xor_assoc]

/-- The sum of the bits of a register. -/
def parity (s : BitVec w) : Bool :=
  sumBelow s.getLsbD w

theorem parity_xor (s t : BitVec w) : parity (s ^^^ t) = (parity s ^^ parity t) := by
  rw [parity, parity, parity, ← sumBelow_xor]
  congr 1
  funext i
  exact BitVec.getLsbD_xor

theorem parity_zero : parity 0#w = false := by
  have hself := parity_xor 0#w 0#w
  rwa [BitVec.xor_self, Bool.xor_self] at hself

theorem parity_ushiftRight_one (s : BitVec w) : parity (s >>> 1) = (parity s ^^ s.getLsbD 0) := by
  have hshift : parity (s >>> 1) = sumBelow (fun i => s.getLsbD (i + 1)) w := by
    rw [parity]
    congr 1
    funext i
    rw [BitVec.getLsbD_ushiftRight, Nat.add_comm]
  have hlast : sumBelow s.getLsbD (w + 1) = parity s := by
    rw [sumBelow, BitVec.getLsbD_of_ge s w (Nat.le_refl w), Bool.xor_false, parity]
  rw [sumBelow_succ_eq, ← hshift] at hlast
  rw [← hlast]
  cases s.getLsbD 0 <;> simp

theorem parity_lowest (hw : 0 < w) (b : Bool) : parity (lowest w b) = b := by
  obtain ⟨n, rfl⟩ := Nat.exists_eq_add_one.mpr hw
  have hrest : (fun i => (lowest (n + 1) b).getLsbD (i + 1)) = fun i => (0#n).getLsbD i := by
    funext i
    simp [getLsbD_lowest]
  rw [parity, sumBelow_succ_eq, hrest]
  have hzero : sumBelow (fun i => (0#n).getLsbD i) n = false := parity_zero
  rw [hzero, getLsbD_lowest]
  simp

variable {p : BitVec w}

/-- With an odd number of ones in `p`, a shift keeps the sum of the bits. -/
theorem parity_shift (hp : parity p = true) (s : BitVec w) : parity (shift p s) = parity s := by
  unfold shift
  split_ifs with hlow
  · rw [parity_xor, parity_ushiftRight_one, hlow, hp]
    simp
  · rw [parity_ushiftRight_one, Bool.eq_false_iff.mpr hlow, Bool.xor_false]

theorem pos_of_parity (hp : parity p = true) : 0 < w := by
  rcases Nat.eq_zero_or_pos w with rfl | hpos
  · cases hp
  · exact hpos

/-- The register counts the ones of the message modulo two. -/
theorem parity_feed (hp : parity p = true) (s : BitVec w) (bits : List Bool) :
    parity (feed p s bits) = (parity s ^^ decide (bits.count true % 2 = 1)) := by
  induction bits generalizing s with
  | nil => simp
  | cons b bits ih =>
      rw [feed_cons, ih, push, parity_shift hp, parity_xor, parity_lowest (pos_of_parity hp)]
      cases b with
      | false => simp
      | true =>
          have hcount : (true :: bits).count true = bits.count true + 1 := by simp
          rw [hcount, Bool.xor_assoc]
          congr 1
          by_cases hodd : bits.count true % 2 = 1
          · have heven : ¬ (bits.count true + 1) % 2 = 1 := by omega
            simp [hodd, heven]
          · have hodd' : (bits.count true + 1) % 2 = 1 := by omega
            simp [hodd, hodd']

theorem feed_odd_ne_zero (hp : parity p = true) {bits : List Bool}
    (hodd : bits.count true % 2 = 1) : feed p 0#w bits ≠ 0#w := by
  intro h
  have hparity := parity_feed hp 0#w bits
  rw [h, parity_zero, decide_eq_true hodd] at hparity
  exact absurd hparity (by decide)

end Parity

end Libnv.Crc
