import Libnv.Lib.CString
import Libnv.Lib.MaskedRing
import Libnv.Lib.Transition

/-!
# The log ring: `nv_log_ring_init`, `nv_log_ring_push`, `nv_log_ring_pop`

Shallow embedding of the multi-producer single-consumer ring of
`src/log/nv_log.c`.  Every atomic load, store, read-modify-write and every byte
of the two `memcpy` calls is one step, so the threads interleave between any
two of them.  `Tid` is an arbitrary type of producer threads.

Positions are unbounded naturals.  The fullness test of the source subtracts
two `uint64_t`; if the loaded `dequeue_pos` has overtaken the older
`enqueue_pos` the difference wraps to a huge value, so the test also succeeds
then (`ringFull`).

A thread inside a call is at one of the program points of `PushPc` or `PopPc`;
a program point carries the locals that are still read after it.  The state
also keeps a history that the code does not have: which message claimed which
position, which positions a producer discarded, and what the pops returned.
-/

namespace Libnv.Log

open Transition

universe u

/-- `nv_log_level_e`. -/
inductive LogLevel where
  | debug
  | info
  | notice
  | warning
  | error
  | crit
  | fatal
deriving DecidableEq, Repr

/-- `nv_log_overflow_e`. -/
inductive LogOverflow where
  | drop
  | block
  | overwrite
deriving DecidableEq, Repr

def nvLogMsgMax : Nat := 4096

def nvLogQueueMin : Nat := 64

def nvLogQueueMax : Nat := 65536

/-- The loop `while (p < n) p <<= 1`. -/
def roundPow2Loop : Nat → Nat → Nat → Nat
  | 0, p, _ => p
  | fuel + 1, p, n => if p < n then roundPow2Loop fuel (p <<< 1) n else p

/-- The loop doubles at most `n` times before it ends. -/
def nvLogRoundPow2 (n : Nat) : Nat :=
  if nvLogQueueMax ≤ n then nvLogQueueMax
  else roundPow2Loop n nvLogQueueMin n

/-- `nv_log_slot_t`; `text` is indexed below `NV_LOG_MSG_MAX`. -/
structure LogSlot where
  seq : Nat
  level : LogLevel
  text : Nat → UInt8

/-- The fields of `nv_log_ring_t` that producers and consumer share. -/
structure LogRing where
  slots : Nat → LogSlot
  capacity : Nat
  mask : Nat
  enqueuePos : Nat
  dequeuePos : Nat

namespace LogRing

/-- `&r->slots[pos & r->mask]`. -/
def slot (r : LogRing) (pos : Nat) : LogSlot :=
  MaskedRing.get r.slots r.mask pos

def setSlot (r : LogRing) (pos : Nat) (f : LogSlot → LogSlot) : LogRing :=
  { r with slots := MaskedRing.modify r.slots r.mask pos f }

end LogRing

/-- The ring as `nv_log_ring_init` leaves it, for a configured queue size. -/
def nvLogRingInit (queueSize : Nat) : LogRing where
  slots := fun i => { seq := i, level := .debug, text := fun _ => 0 }
  capacity := nvLogRoundPow2 queueSize
  mask := nvLogRoundPow2 queueSize - 1
  enqueuePos := 0
  dequeuePos := 0

/-- The arguments of one `nv_log_ring_push` after the length test. -/
structure LogMsg where
  line : CString
  level : LogLevel
deriving DecidableEq

/-- The bytes that are stored: at most `NV_LOG_MSG_MAX - 1` of the line. -/
def LogMsg.text (m : LogMsg) : CString :=
  m.line.take (nvLogMsgMax - 1)

/-- `pos - head >= r->capacity` on `uint64_t`. -/
def ringFull (capacity pos head : Nat) : Bool :=
  pos < head ∨ capacity ≤ pos - head

theorem lt_of_not_ringFull {capacity pos head : Nat} (h : ¬ ringFull capacity pos head = true) :
    pos < head + capacity := by
  simp only [ringFull, decide_eq_true_eq, not_or, Nat.not_lt, Nat.not_le] at h
  omega

/-- Program points of a producer, `idle` outside `nv_log_ring_push`. -/
inductive PushPc where
  | idle
  | entry (line : Option CString) (level : LogLevel)
  | loadTail (m : LogMsg)
  | loadHead (m : LogMsg) (pos : Nat)
  | casHead (m : LogMsg) (pos head : Nat)
  | countDiscard (m : LogMsg) (head : Nat)
  | releaseSlot (m : LogMsg) (head : Nat)
  | casTail (m : LogMsg) (pos : Nat)
  | spin (m : LogMsg) (pos spins : Nat)
  | recheck (m : LogMsg) (pos : Nat)
  | writeText (m : LogMsg) (pos i : Nat)
  | writeNul (m : LogMsg) (pos : Nat)
  | writeLevel (m : LogMsg) (pos : Nat)
  | publish (m : LogMsg) (pos : Nat)
  | reloadTail (pos : Nat)
  | reloadHead (pos tail : Nat)
  | signal (pos : Nat)
  | drop
  | dropTimeout (pos : Nat)
  | ret (rc : Int) (pos : Option Nat)
deriving DecidableEq

/-- Program points of the consumer inside `nv_log_ring_pop`. -/
inductive PopPc where
  | idle
  | loadTail (pos : Nat)
  | loadSeq (pos : Nat)
  | copyText (pos i : Nat)
  | copyLevel (pos : Nat)
  | storeSeq (pos : Nat)
  | storeHead (pos : Nat)
  | ret (ok : Bool)
deriving DecidableEq

/-- The consumer's local message buffer. -/
structure LogOut where
  level : LogLevel
  text : Nat → UInt8

/-- The ring, the threads and the history. -/
structure RingState (Tid : Type u) where
  ring : LogRing
  policy : LogOverflow
  asyncReady : Bool
  dropped : Nat
  push : Tid → PushPc
  pop : PopPc
  out : LogOut
  /-- The message that claimed position `k` is entry `k`. -/
  claims : List LogMsg
  /-- Positions that a producer took off the ring. -/
  discarded : List Nat
  /-- Positions and contents returned by successful pops, in order. -/
  delivered : List (Nat × LogOut)

section Steps

variable {Tid : Type u} [DecidableEq Tid]

/-- Move one producer to another program point. -/
def RingState.goto (s : RingState Tid) (t : Tid) (pc : PushPc) : RingState Tid :=
  { s with push := fun u => if u = t then pc else s.push u }

/-- A producer enters `nv_log_ring_push(line, level)`. -/
def pushCall (s : RingState Tid) (t : Tid) (line : Option CString)
    (level : LogLevel) : RingState Tid :=
  match s.push t with
  | .idle => s.goto t (.entry line level)
  | _ => s

/--
The next step of a producer inside `nv_log_ring_push`.  `spurious` makes a weak
compare-and-swap fail although the expected value is there.
-/
def pushStep (s : RingState Tid) (t : Tid) (spurious : Bool) : RingState Tid :=
  let r := s.ring
  match s.push t with
  | .idle => s
  | .entry line level =>
      match line with
      | none => s.goto t .drop
      | some line =>
          if s.asyncReady then
            if line.length = 0 then s.goto t (.ret 0 none)
            else s.goto t (.loadTail ⟨line, level⟩)
          else s.goto t .drop
  | .loadTail m => s.goto t (.loadHead m r.enqueuePos)
  | .loadHead m pos =>
      let head := r.dequeuePos
      if ringFull r.capacity pos head then
        match s.policy with
        | .drop | .block => s.goto t .drop
        | .overwrite => s.goto t (.casHead m pos head)
      else s.goto t (.casTail m pos)
  | .casHead m _ head =>
      if r.dequeuePos = head ∧ ¬ spurious then
        { s.goto t (.countDiscard m head) with
          ring := { r with dequeuePos := head + 1 }
          discarded := s.discarded ++ [head] }
      else s.goto t (.loadTail m)
  | .countDiscard m head =>
      { s.goto t (.releaseSlot m head) with dropped := s.dropped + 1 }
  | .releaseSlot m head =>
      { s.goto t (.loadTail m) with
        ring := r.setSlot head fun x => { x with seq := head + r.capacity } }
  | .casTail m pos =>
      if r.enqueuePos = pos ∧ ¬ spurious then
        { s.goto t (.spin m pos 0) with
          ring := { r with enqueuePos := pos + 1 }
          claims := s.claims ++ [m] }
      else s.goto t (.loadTail m)
  | .spin m pos spins =>
      if (r.slot pos).seq = pos then s.goto t (.recheck m pos)
      else if spins + 1 < 10000 then s.goto t (.spin m pos (spins + 1))
      else s.goto t (.recheck m pos)
  | .recheck m pos =>
      if (r.slot pos).seq = pos then s.goto t (.writeText m pos 0)
      else s.goto t (.dropTimeout pos)
  | .writeText m pos i =>
      match m.text.bytes[i]? with
      | some b =>
          { s.goto t (.writeText m pos (i + 1)) with
            ring := r.setSlot pos fun x =>
              { x with text := fun j => if j = i then b else x.text j } }
      | none => s.goto t (.writeNul m pos)
  | .writeNul m pos =>
      { s.goto t (.writeLevel m pos) with
        ring := r.setSlot pos fun x =>
          { x with text := fun j => if j = m.text.length then 0 else x.text j } }
  | .writeLevel m pos =>
      { s.goto t (.publish m pos) with
        ring := r.setSlot pos fun x => { x with level := m.level } }
  | .publish _ pos =>
      { s.goto t (.reloadTail pos) with
        ring := r.setSlot pos fun x => { x with seq := pos + 1 } }
  | .reloadTail pos => s.goto t (.reloadHead pos r.enqueuePos)
  | .reloadHead pos tail =>
      if r.dequeuePos < tail then s.goto t (.signal pos)
      else s.goto t (.ret 0 (some pos))
  | .signal pos => s.goto t (.ret 0 (some pos))
  | .drop => { s.goto t (.ret (-1) none) with dropped := s.dropped + 1 }
  | .dropTimeout _ => { s.goto t (.ret (-1) none) with dropped := s.dropped + 1 }
  | .ret _ _ => s.goto t .idle

/-- The next step of the consumer inside `nv_log_ring_pop`. -/
def popStep (s : RingState Tid) : RingState Tid :=
  let r := s.ring
  match s.pop with
  | .idle => { s with pop := .loadTail r.dequeuePos }
  | .loadTail pos =>
      if r.enqueuePos ≤ pos then { s with pop := .ret false }
      else { s with pop := .loadSeq pos }
  | .loadSeq pos =>
      if (r.slot pos).seq ≠ pos + 1 then { s with pop := .ret false }
      else { s with pop := .copyText pos 0 }
  | .copyText pos i =>
      if i < nvLogMsgMax then
        { s with
          pop := .copyText pos (i + 1)
          out := { s.out with
            text := fun j => if j = i then (r.slot pos).text i else s.out.text j } }
      else { s with pop := .copyLevel pos }
  | .copyLevel pos =>
      { s with
        pop := .storeSeq pos
        out := { s.out with level := (r.slot pos).level } }
  | .storeSeq pos =>
      { s with
        pop := .storeHead pos
        ring := r.setSlot pos fun x => { x with seq := pos + r.capacity } }
  | .storeHead pos =>
      { s with
        pop := .ret true
        ring := { r with dequeuePos := pos + 1 }
        delivered := s.delivered ++ [(pos, s.out)] }
  | .ret _ => { s with pop := .idle }

/-- Who moves next, and the choices of the environment. -/
inductive RingAction (Tid : Type u) where
  | call (t : Tid) (line : Option CString) (level : LogLevel)
  | push (t : Tid) (spurious : Bool)
  | pop

def ringStep (s : RingState Tid) : RingAction Tid → RingState Tid
  | .call t line level => pushCall s t line level
  | .push t spurious => pushStep s t spurious
  | .pop => popStep s

/-- The state after `nv_log_ring_init`, before any call. -/
def ringInit (queueSize : Nat) (policy : LogOverflow) : RingState Tid where
  ring := nvLogRingInit queueSize
  policy := policy
  asyncReady := true
  dropped := 0
  push := fun _ => .idle
  pop := .idle
  out := { level := .debug, text := fun _ => 0 }
  claims := []
  discarded := []
  delivered := []

def lineA : CString := ⟨[65], by decide⟩

end Steps

section Frames

variable {Tid : Type u} [DecidableEq Tid] {s : RingState Tid}

theorem goto_push_self (t : Tid) (pc : PushPc) : (s.goto t pc).push t = pc := by
  simp [RingState.goto]

theorem goto_push_other {t u : Tid} (hne : u ≠ t) (pc : PushPc) :
    (s.goto t pc).push u = s.push u := by
  simp [RingState.goto, hne]

/-- A property of every producer, after one of them moved on. -/
theorem forall_goto {P : Tid → PushPc → Prop} {t : Tid} {pc : PushPc}
    (hself : P t pc) (hothers : ∀ u, u ≠ t → P u (s.push u)) (u : Tid) :
    P u ((s.goto t pc).push u) := by
  by_cases hu : u = t
  · subst hu
    rw [goto_push_self]
    exact hself
  · rw [goto_push_other hu]
    exact hothers u hu

/--
A producer step moves no other producer, and leaves the readiness flag and the
capacity alone.
-/
theorem pushStep_others (s : RingState Tid) (t : Tid) (spurious : Bool) :
    (∀ u, u ≠ t → (pushStep s t spurious).push u = s.push u) ∧
      (pushStep s t spurious).asyncReady = s.asyncReady ∧
      (pushStep s t spurious).ring.capacity = s.ring.capacity := by
  cases hpc : s.push t <;> simp only [pushStep, hpc] <;> repeat' split
  all_goals first
    | exact ⟨fun _ hu => goto_push_other hu _, by trivial, by trivial⟩
    | exact ⟨fun _ _ => by trivial, by trivial, by trivial⟩

omit [DecidableEq Tid] in
/-- The consumer leaves the producers, their counter, the flag and the capacity alone. -/
theorem popStep_frame (s : RingState Tid) :
    (popStep s).push = s.push ∧ (popStep s).asyncReady = s.asyncReady ∧
      (popStep s).claims = s.claims ∧
      (popStep s).ring.enqueuePos = s.ring.enqueuePos ∧
      (popStep s).ring.capacity = s.ring.capacity := by
  unfold popStep
  dsimp only
  repeat' split
  all_goals exact ⟨rfl, rfl, rfl, rfl, rfl⟩

end Frames

section CopyText

variable {Tid : Type u}

/-- The state once the first `n` bytes of the slot have been copied out. -/
def RingState.copiedText (s : RingState Tid) (pos n : Nat) : RingState Tid :=
  { s with
    pop := .copyText pos n
    out := { s.out with
      text := fun j => if j < n then (s.ring.slot pos).text j else s.out.text j } }

theorem copiedText_zero {s : RingState Tid} {pos : Nat} (hpc : s.pop = .copyText pos 0) :
    s.copiedText pos 0 = s := by
  simp only [RingState.copiedText, Nat.not_lt_zero, if_false, ← hpc]

theorem popStep_copiedText (s : RingState Tid) {pos n : Nat} (hn : n < nvLogMsgMax) :
    popStep (s.copiedText pos n) = s.copiedText pos (n + 1) := by
  simp only [popStep, RingState.copiedText, if_pos hn]
  congr 2
  funext j
  rcases Nat.lt_trichotomy j n with h | h | h
  · rw [if_neg (by omega), if_pos h, if_pos (by omega)]
  · rw [if_pos h, if_pos (by omega), h]
  · rw [if_neg (by omega), if_neg (by omega), if_neg (by omega)]

theorem run_copyText [DecidableEq Tid] {s : RingState Tid} {pos n : Nat}
    (hpc : s.pop = .copyText pos 0) (hle : n ≤ nvLogMsgMax) :
    run ringStep s (List.replicate n .pop) = s.copiedText pos n := by
  induction n with
  | zero => exact (copiedText_zero hpc).symm
  | succ n ih =>
      rw [List.replicate_succ', run_append, ih (Nat.le_of_succ_le hle)]
      exact popStep_copiedText s hle

theorem run_pop_published [DecidableEq Tid] {s : RingState Tid} {pos : Nat}
    (hidle : s.pop = .idle) (hhead : s.ring.dequeuePos = pos) (htail : pos < s.ring.enqueuePos)
    (hseq : (s.ring.slot pos).seq = pos + 1) :
    ∃ out, (run ringStep s (List.replicate (3 + nvLogMsgMax + 4) .pop)).delivered =
      s.delivered ++ [(pos, out)] := by
  have hload : run ringStep s (List.replicate 3 .pop) =
      { s with pop := .copyText pos 0 } := by
    simp [run, List.replicate, ringStep, popStep, hidle, hhead, Nat.not_le.mpr htail,
      hseq]
  rw [← List.replicate_append_replicate, ← List.replicate_append_replicate,
    run_append, run_append, hload, run_copyText rfl (Nat.le_refl _)]
  simp [run, List.replicate, ringStep, popStep, RingState.copiedText]

end CopyText

end Libnv.Log
