import Libnv.Log.RingFifo
import Libnv.Log.RingOverwrite

/-!
# When a line is dropped under DROP and BLOCK

`nv_log_ring_push` loads `enqueue_pos` and then `dequeue_pos`, and returns `-1` if
their unsigned difference is at least the capacity.  The older `enqueue_pos` is
at most the current one, so a difference that is a real distance means a full
ring.  But other producers and the consumer may both go past it between the two
loads; the difference then wraps, and the line is dropped on an empty ring.

The steps are those of the ring.  Beside the ring, a thread's last argument and
whether the ring was full at some moment since its call began are recorded; no
step reads them.
-/

namespace Libnv.Log

open Transition

universe u

/-- `enqueue_pos - dequeue_pos` is the capacity. -/
def LogRing.isFull (r : LogRing) : Bool := r.enqueuePos = r.dequeuePos + r.capacity

/-- The call is on its way to return `-1`, or returns it. -/
def PushPc.fails : PushPc → Bool
  | .drop => true
  | .dropTimeout _ => true
  | .ret rc _ => rc = -1
  | _ => false

/-- The ring with the history of the calls in progress. -/
structure DropState (Tid : Type u) where
  core : RingState Tid
  /-- The line of the thread's last call. -/
  line : Tid → Option CString
  /-- The ring was full at some moment since the thread's last call began. -/
  seenFull : Tid → Bool

section Steps

variable {Tid : Type u} [DecidableEq Tid]

def begins (s : RingState Tid) (t : Tid) : RingAction Tid → Option (Option CString)
  | .call u line _ => if u = t ∧ s.push t = .idle then some line else none
  | _ => none

/-- One step of the ring; a fullness seen in the new state counts for every call in progress. -/
def dropStep (s : DropState Tid) (a : RingAction Tid) : DropState Tid where
  core := ringStep s.core a
  line := fun t => (begins s.core t a).getD (s.line t)
  seenFull := fun t =>
    (ringStep s.core a).ring.isFull || ((begins s.core t a).isNone && s.seenFull t)

/-- After `nv_log_ring_init`, before any call. -/
def dropInit (queueSize : Nat) (policy : LogOverflow) : DropState Tid where
  core := ringInit queueSize policy
  line := fun _ => none
  seenFull := fun _ => false

/-- Every call with a line that returns `-1` has seen a full ring. -/
def DropsJustified (s : DropState Tid) : Prop :=
  ∀ t, (s.core.push t).fails = true → (s.line t).isSome = true → s.seenFull t = true

/--
The condition on a step: the `dequeue_pos` that a producer loads is not past the
`enqueue_pos` it has just loaded, or the ring was full since its call began.
-/
def LoadsInOrder (s : DropState Tid) : RingAction Tid → Prop
  | .push t _ =>
      match s.core.push t with
      | .loadHead _ pos => s.core.ring.dequeuePos ≤ pos ∨ s.seenFull t = true
      | _ => True
  | _ => True

instance (s : DropState Tid) : ∀ a, Decidable (LoadsInOrder s a)
  | .push t _ => by
      dsimp only [LoadsInOrder]
      split <;> infer_instance
  | .call _ _ _ | .pop => isTrue trivial

end Steps

section Invariant

variable {Tid : Type u} [DecidableEq Tid]

/-- The ring is a FIFO and ready, lines are recorded, and drops are justified. -/
structure DropInv (s : DropState Tid) : Prop where
  fifo : FifoInv s.core
  ready : s.core.asyncReady = true
  entered : ∀ t line level, s.core.push t = .entry line level → s.line t = line
  justified : DropsJustified s

theorem pushStep_fails {s : RingState Tid} {t : Tid} {spurious : Bool} (hi : FifoInv s)
    (hready : s.asyncReady = true) (hfails : ((pushStep s t spurious).push t).fails = true) :
    (s.push t).fails = true ∨ (∃ level, s.push t = .entry none level) ∨
      ∃ m pos, s.push t = .loadHead m pos ∧
        ringFull s.ring.capacity pos s.ring.dequeuePos = true := by
  have hok := hi.pushOk t
  cases hpc : s.push t with
  | entry line level =>
      cases line with
      | none => exact Or.inr (Or.inl ⟨level, rfl⟩)
      | some line =>
          simp only [pushStep, hpc, hready, if_true] at hfails
          split at hfails <;> simp [RingState.goto, PushPc.fails] at hfails
  | loadHead m pos =>
      by_cases hfull : ringFull s.ring.capacity pos s.ring.dequeuePos = true
      · exact Or.inr (Or.inr ⟨m, pos, rfl, hfull⟩)
      · simp [pushStep, hpc, hfull, RingState.goto, PushPc.fails] at hfails
  | drop => exact Or.inl rfl
  | dropTimeout pos => exact Or.inl rfl
  | recheck m pos =>
      rw [hpc] at hok
      simp [pushStep, hpc, hok.2.2.1, RingState.goto, PushPc.fails] at hfails
  | spin m pos spins =>
      rw [hpc] at hok
      simp [pushStep, hpc, hok.1.2.2.1, RingState.goto, PushPc.fails] at hfails
  | casHead m pos head =>
      rw [hpc] at hok
      exact hok.elim
  | casTail m pos =>
      simp only [pushStep, hpc] at hfails
      split at hfails <;> simp [RingState.goto, PushPc.fails] at hfails
  | writeText m pos i =>
      simp only [pushStep, hpc] at hfails
      split at hfails <;> simp [RingState.goto, PushPc.fails] at hfails
  | reloadHead pos tail =>
      simp only [pushStep, hpc] at hfails
      split at hfails <;> simp [RingState.goto, PushPc.fails] at hfails
  | _ => simp [pushStep, hpc, RingState.goto, PushPc.fails] at hfails

theorem pushStep_not_entry
    (s : RingState Tid) (t : Tid) (spurious : Bool) (line : Option CString) (level : LogLevel) :
    (pushStep s t spurious).push t ≠ .entry line level := by
  cases hpc : s.push t <;> simp only [pushStep, hpc] <;> repeat' split
  all_goals simp [RingState.goto]

omit [DecidableEq Tid] in
theorem isFull_of_ringFull {s : RingState Tid} (hi : FifoInv s) {pos : Nat}
    (hle : pos ≤ s.ring.enqueuePos) (hhead : s.ring.dequeuePos ≤ pos)
    (hfull : ringFull s.ring.capacity pos s.ring.dequeuePos = true) : s.ring.isFull = true := by
  have hbound := hi.bound
  simp only [ringFull, decide_eq_true_eq] at hfull
  simp only [LogRing.isFull, decide_eq_true_eq]
  omega

variable {s : DropState Tid}

theorem DropInv.push
    (hi : DropInv s) (t : Tid) (spurious : Bool) (hgood : LoadsInOrder s (.push t spurious)) :
    DropInv (dropStep s (.push t spurious)) := by
  obtain ⟨hothers, hready, -⟩ := pushStep_others s.core t spurious
  have hline : ∀ u, (dropStep s (.push t spurious)).line u = s.line u := fun _ => rfl
  have hseen : ∀ u, s.seenFull u = true →
      (dropStep s (.push t spurious)).seenFull u = true := by
    intro u hu
    simp [dropStep, begins, hu]
  refine ⟨hi.fifo.pushStep t spurious, hready.trans hi.ready, ?_, ?_⟩
  · intro u line level hu
    by_cases hut : u = t
    · subst hut
      exact absurd hu (pushStep_not_entry s.core u spurious line level)
    · exact hi.entered u line level ((hothers u hut).symm.trans hu)
  · intro u hfails hsome
    rw [hline] at hsome
    by_cases hut : u = t
    · subst hut
      rcases pushStep_fails hi.fifo hi.ready hfails with hold | ⟨level, hnull⟩ | ⟨m, pos, hpc, hfull⟩
      · exact hseen u (hi.justified u hold hsome)
      · rw [hi.entered u none level hnull] at hsome
        cases hsome
      · simp only [LoadsInOrder, hpc] at hgood
        rcases hgood with hhead | hbefore
        · -- the distance is real, and the step leaves the ring as it is
          have hle := hi.fifo.pushOk u
          rw [hpc] at hle
          have hnow := isFull_of_ringFull hi.fifo hle hhead hfull
          have hring : (pushStep s.core u spurious).ring = s.core.ring := by
            simp only [pushStep, hpc, hfull, if_true]
            cases s.core.policy <;> rfl
          simp [dropStep, ringStep, hring, hnow]
        · exact hseen u hbefore
    · exact hseen u (hi.justified u ((congrArg PushPc.fails (hothers u hut)).symm.trans hfails) hsome)

theorem DropInv.pop (hi : DropInv s) : DropInv (dropStep s .pop) := by
  obtain ⟨hcore, hready, -⟩ := popStep_frame s.core
  have hpush : (dropStep s .pop).core.push = s.core.push := hcore
  refine ⟨hi.fifo.popStep, hready.trans hi.ready, ?_, ?_⟩
  · intro t line level ht
    rw [hpush] at ht
    exact hi.entered t line level ht
  · intro t hfails hsome
    rw [hpush] at hfails
    have hseen := hi.justified t hfails hsome
    simp [dropStep, begins, hseen]

theorem DropInv.call (hi : DropInv s) (t : Tid) (line : Option CString) (level : LogLevel) :
    DropInv (dropStep s (.call t line level)) := by
  have hfifo := hi.fifo.step (.call t line level)
  by_cases hidle : s.core.push t = .idle
  · have hcore : (dropStep s (.call t line level)).core = s.core.goto t (.entry line level) := by
      simp [dropStep, ringStep, pushCall, hidle]
    refine ⟨hfifo, ?_, ?_, ?_⟩
    · rw [hcore]
      exact hi.ready
    · intro u line' level' hu
      rw [hcore] at hu
      by_cases hut : u = t
      · subst hut
        rw [goto_push_self, PushPc.entry.injEq] at hu
        simp [dropStep, begins, hidle, hu.1]
      · rw [goto_push_other hut] at hu
        simpa [dropStep, begins, Ne.symm hut] using hi.entered u line' level' hu
    · intro u hfails hsome
      rw [hcore] at hfails
      by_cases hut : u = t
      · subst hut
        rw [goto_push_self] at hfails
        cases hfails
      · rw [goto_push_other hut] at hfails
        have hline : (dropStep s (.call t line level)).line u = s.line u := by
          simp [dropStep, begins, Ne.symm hut]
        rw [hline] at hsome
        have hseen := hi.justified u hfails hsome
        simp [dropStep, begins, Ne.symm hut, hseen]
  · -- not a call that a thread inside another one makes
    have hcore : (dropStep s (.call t line level)).core = s.core := by
      simp only [dropStep, ringStep, pushCall]
    have hbegins : ∀ u, begins s.core u (.call t line level) = none := by
      intro u
      refine if_neg ?_
      rintro ⟨rfl, h⟩
      exact hidle h
    refine ⟨hfifo, ?_, ?_, ?_⟩
    · rw [hcore]
      exact hi.ready
    · intro u line' level' hu
      rw [hcore] at hu
      simpa [dropStep, hbegins] using hi.entered u line' level' hu
    · intro u hfails hsome
      rw [hcore] at hfails
      simp only [dropStep, hbegins, Option.getD_none] at hsome
      have hseen := hi.justified u hfails hsome
      simp [dropStep, hbegins, hseen]

theorem DropInv.step (hi : DropInv s) (a : RingAction Tid) (hgood : LoadsInOrder s a) :
    DropInv (dropStep s a) := by
  cases a with
  | call t line level => exact hi.call t line level
  | push t spurious => exact hi.push t spurious hgood
  | pop => exact hi.pop

end Invariant

section Runs

variable {Tid : Type u} [DecidableEq Tid]

omit [DecidableEq Tid] in
theorem dropInit_inv (queueSize : Nat) {policy : LogOverflow} (hpolicy : policy ≠ .overwrite) :
    DropInv (dropInit queueSize policy : DropState Tid) := by
  refine ⟨ringInit_fifoInv queueSize hpolicy, rfl, ?_, ?_⟩
  · intro t line level h
    cases h
  · intro t h
    cases h

/--
For every queue size, every policy but OVERWRITE, any producers and every
interleaving in which the loaded counters meet `LoadsInOrder`: a call with a line
returns `-1` only if the ring was full at some moment since it began.
-/
theorem nvLogRingPush_drops_only_full
    (queueSize : Nat)
    (policy : LogOverflow)
    (hpolicy : policy ≠ .overwrite)
    (as : List (RingAction Tid))
    (hgood : Transition.Along dropStep LoadsInOrder (dropInit queueSize policy) as) :
    DropsJustified (Transition.run dropStep (dropInit queueSize policy) as) := by
  have hinv : DropInv (run dropStep (dropInit queueSize policy) as) :=
    run_invariant_of_along (fun _ a hi hg => hi.step a hg)
      (dropInit_inv queueSize hpolicy) hgood
  exact hinv.justified

/-- Lines are pushed until the ring is full, and one more is dropped. -/
def fillAndDrop : List (RingAction Unit) :=
  (List.replicate 64 (pushShort lineA)).flatten ++
    [RingAction.call () (some lineB) .info, .push () false, .push () false, .push () false]

theorem nvLogRingPush_drops_only_full_ring :
    let s : DropState Unit := Transition.run dropStep (dropInit 64 .drop) fillAndDrop
    (s.core.push ()).fails = true ∧ DropsJustified s :=
  ⟨by decide +kernel,
    nvLogRingPush_drops_only_full 64 .drop (by decide) fillAndDrop (by decide +kernel)⟩

theorem run_drop_copyText
    {s : DropState Tid} (pos : Nat) {n : Nat} (hpc : s.core.pop = .copyText pos 0)
    (hfull : s.core.ring.isFull = false) (hle : n ≤ nvLogMsgMax) :
    run dropStep s (List.replicate n .pop) =
      { s with core := s.core.copiedText pos n } := by
  induction n with
  | zero =>
      rw [copiedText_zero hpc]
      rfl
  | succ n ih =>
      rw [List.replicate_succ', run_append, ih (Nat.le_of_succ_le hle)]
      have hcore : ringStep (s.core.copiedText pos n) .pop = s.core.copiedText pos (n + 1) :=
        popStep_copiedText s.core hle
      have hring : (s.core.copiedText pos (n + 1)).ring.isFull = false := hfull
      simp only [run_cons, run_nil, dropStep, hcore, hring, begins]
      simp

/-- A line is dropped although the ring never held more than one line. -/
theorem stale_tail_drops_from_empty :
    ¬ DropsJustified (Transition.run dropStep (dropInit 64 .drop)
      (staleTailSetup ++ List.replicate nvLogMsgMax .pop ++ staleTailFinish)) := by
  rw [run_append, run_append,
    run_drop_copyText 0 (by decide +kernel) (by decide +kernel) (Nat.le_refl _)]
  intro h
  exact absurd (h 0 (by decide +kernel) (by decide +kernel)) (by decide +kernel)

end Runs

end Libnv.Log
