import Libnv.Log.Ring

/-!
# The log ring under OVERWRITE

With `NV_LOG_OVERFLOW_OVERWRITE` a producer that finds the ring full takes the
oldest position off the ring by a compare-and-swap on `dequeue_pos`, which the
consumer advances with a plain store.  Two steps can then break the ring:

* a producer whose loaded `enqueue_pos` is older than the loaded `dequeue_pos`
  reads the wrapped difference as "full" and discards from an empty ring;
* the consumer stores `dequeue_pos` although a producer has moved it since the
  pop loaded it, so a discarded position is delivered and the counter may fall.

These are the only ones: the runs in which every state is sound are exactly
those that take neither step (`nvLogRing_overwrite_sound_iff`).
-/

namespace Libnv.Log

open Transition

universe u

section Overwrite

variable {Tid : Type u} {pc : PushPc} {r : LogRing} {t : Tid}

/-- The positions returned by pops. -/
def RingState.popped (s : RingState Tid) : List Nat :=
  s.delivered.map Prod.fst

/--
What is expected of a step: the counters stay within one capacity of each
other, `dequeue_pos` does not fall, and no position is delivered twice, or both
discarded and delivered.
-/
structure OverwriteSound (s s' : RingState Tid) : Prop where
  le : s'.ring.dequeuePos ≤ s'.ring.enqueuePos
  bound : s'.ring.enqueuePos ≤ s'.ring.dequeuePos + s'.ring.capacity
  mono : s.ring.dequeuePos ≤ s'.ring.dequeuePos
  once : s'.popped.Nodup
  apart : ∀ p ∈ s'.discarded, p ∉ s'.popped

/--
The condition on a step: a discarding compare-and-swap succeeds only on a
non-empty ring, and a pop stores `dequeue_pos` only while it still has the
value that this pop loaded.
-/
def OverwriteStepOk (s : RingState Tid) : RingAction Tid → Prop
  | .call _ _ _ => True
  | .push t spurious => ∀ m pos head, s.push t = .casHead m pos head →
      s.ring.dequeuePos = head ∧ ¬ spurious →
      s.ring.dequeuePos < s.ring.enqueuePos
  | .pop => ∀ pos, s.pop = .storeHead pos → s.ring.dequeuePos = pos

/-- What a producer may rely on under OVERWRITE. -/
def OverwritePushOk (r : LogRing) : PushPc → Prop
  | .loadHead _ pos => pos ≤ r.enqueuePos
  | .casTail _ pos => pos ≤ r.enqueuePos ∧ pos < r.dequeuePos + r.capacity
  | _ => True

/-- What the consumer may rely on under OVERWRITE. -/
def OverwritePopOk (r : LogRing) : PopPc → Prop
  | .idle => True
  | .ret _ => True
  | .loadTail pos => pos ≤ r.dequeuePos
  | .loadSeq pos => pos ≤ r.dequeuePos ∧ pos < r.enqueuePos
  | .copyText pos _ => pos ≤ r.dequeuePos ∧ pos < r.enqueuePos
  | .copyLevel pos => pos ≤ r.dequeuePos ∧ pos < r.enqueuePos
  | .storeSeq pos => pos ≤ r.dequeuePos ∧ pos < r.enqueuePos
  | .storeHead pos => pos ≤ r.dequeuePos ∧ pos < r.enqueuePos

/-- The invariant of the runs that avoid the two steps. -/
structure OverwriteInv (s : RingState Tid) : Prop where
  le : s.ring.dequeuePos ≤ s.ring.enqueuePos
  bound : s.ring.enqueuePos ≤ s.ring.dequeuePos + s.ring.capacity
  gone : ∀ p, p ∈ s.discarded ++ s.popped ↔ p < s.ring.dequeuePos
  once : (s.discarded ++ s.popped).Nodup
  pushOk : ∀ t, OverwritePushOk s.ring (s.push t)
  popOk : OverwritePopOk s.ring s.pop

theorem OverwritePushOk.mono {r' : LogRing} (hok : OverwritePushOk r pc)
    (hcap : r'.capacity = r.capacity) (htail : r.enqueuePos ≤ r'.enqueuePos)
    (hhead : r.dequeuePos ≤ r'.dequeuePos) : OverwritePushOk r' pc := by
  cases pc with
  | loadHead m pos => exact Nat.le_trans hok htail
  | casTail m pos =>
      obtain ⟨hpos, hlt⟩ := hok
      refine ⟨Nat.le_trans hpos htail, ?_⟩
      rw [hcap]
      omega
  | _ => trivial

theorem OverwritePopOk.mono {r' : LogRing} {pc : PopPc} (hok : OverwritePopOk r pc)
    (htail : r.enqueuePos ≤ r'.enqueuePos) (hhead : r.dequeuePos ≤ r'.dequeuePos) :
    OverwritePopOk r' pc := by
  cases pc with
  | idle => trivial
  | ret ok => trivial
  | loadTail pos => exact Nat.le_trans hok hhead
  | _ =>
      exact ⟨Nat.le_trans hok.1 hhead, Nat.lt_of_lt_of_le hok.2 htail⟩

variable {s : RingState Tid}

/-- A step that leaves the counters and the lists of gone positions alone. -/
theorem OverwriteInv.of_same (hi : OverwriteInv s) {s' : RingState Tid}
    (hcap : s'.ring.capacity = s.ring.capacity) (htail : s'.ring.enqueuePos = s.ring.enqueuePos)
    (hhead : s'.ring.dequeuePos = s.ring.dequeuePos)
    (hgone : s'.discarded ++ s'.popped = s.discarded ++ s.popped)
    (hpush : ∀ t, OverwritePushOk s.ring (s'.push t)) (hpop : OverwritePopOk s.ring s'.pop) :
    OverwriteInv s' := by
  refine ⟨?_, ?_, ?_, ?_, ?_, ?_⟩
  · rw [hhead, htail]
    exact hi.le
  · rw [hhead, htail, hcap]
    exact hi.bound
  · rw [hgone, hhead]
    exact hi.gone
  · rw [hgone]
    exact hi.once
  · exact fun t => (hpush t).mono hcap htail.ge hhead.ge
  · exact hpop.mono htail.ge hhead.ge

/-- The consumer moves on and leaves the counters alone. -/
theorem OverwriteInv.pop_local (hi : OverwriteInv s) {pc : PopPc} {out : LogOut}
    (hcap : r.capacity = s.ring.capacity) (htail : r.enqueuePos = s.ring.enqueuePos)
    (hhead : r.dequeuePos = s.ring.dequeuePos) (hok : OverwritePopOk s.ring pc) :
    OverwriteInv { s with pop := pc, out := out, ring := r } :=
  hi.of_same hcap htail hhead rfl hi.pushOk hok

/-- A step that takes the oldest position of a non-empty ring: it is popped or discarded. -/
theorem OverwriteInv.advance (hi : OverwriteInv s) {s' : RingState Tid}
    (hlt : s.ring.dequeuePos < s.ring.enqueuePos)
    (hring : s'.ring = { s.ring with dequeuePos := s.ring.dequeuePos + 1 })
    (hgone : (s'.discarded ++ s'.popped).Perm
      (s.ring.dequeuePos :: (s.discarded ++ s.popped)))
    (hpush : ∀ t, OverwritePushOk s'.ring (s'.push t))
    (hpop : OverwritePopOk s'.ring s'.pop) : OverwriteInv s' := by
  have hfresh : s.ring.dequeuePos ∉ s.discarded ++ s.popped := by
    rw [hi.gone]
    exact Nat.lt_irrefl _
  refine ⟨?_, ?_, ?_, ?_, hpush, hpop⟩
  · rw [hring]
    exact hlt
  · have := hi.bound
    rw [hring]
    dsimp only
    omega
  · intro p
    rw [hgone.mem_iff, List.mem_cons, hi.gone p, hring]
    dsimp only
    omega
  · rw [hgone.nodup_iff]
    exact List.nodup_cons.mpr ⟨hfresh, hi.once⟩

/-- A consumer step that meets the condition keeps the invariant. -/
theorem OverwriteInv.popStep (hi : OverwriteInv s) (hstep : OverwriteStepOk s .pop) :
    OverwriteInv (popStep s) := by
  have hok := hi.popOk
  cases hpc : s.pop with (rw [hpc] at hok; simp only [Log.popStep, hpc])
  | idle => exact hi.pop_local rfl rfl rfl (Nat.le_refl _)
  | loadTail pos =>
      split
      · exact hi.pop_local rfl rfl rfl trivial
      · rename_i hlt
        exact hi.pop_local rfl rfl rfl ⟨hok, Nat.lt_of_not_le hlt⟩
  | loadSeq pos =>
      split
      · exact hi.pop_local rfl rfl rfl trivial
      · exact hi.pop_local rfl rfl rfl hok
  | copyText pos i =>
      split
      · exact hi.pop_local rfl rfl rfl hok
      · exact hi.pop_local rfl rfl rfl hok
  | copyLevel pos => exact hi.pop_local rfl rfl rfl hok
  | storeSeq pos => exact hi.pop_local rfl rfl rfl hok
  | storeHead pos =>
      obtain rfl := hstep pos hpc
      obtain ⟨-, hlt⟩ := hok
      refine hi.advance hlt rfl ?_ ?_ trivial
      · simp only [RingState.popped, List.map_append, List.map_cons, List.map_nil,
          ← List.append_assoc]
        exact List.perm_append_singleton _ _
      · intro t
        exact (hi.pushOk t).mono rfl (Nat.le_refl _) (Nat.le_succ _)
  | ret ok =>
      exact hi.pop_local rfl rfl rfl trivial

variable [DecidableEq Tid]

theorem pushOk_goto (hok : OverwritePushOk r pc) (hothers : ∀ u, OverwritePushOk r (s.push u)) :
    ∀ u, OverwritePushOk r ((s.goto t pc).push u) :=
  forall_goto (P := fun _ => OverwritePushOk r) hok fun u _ => hothers u

/-- A producer moves on and leaves the counters alone. -/
theorem OverwriteInv.push_local (hi : OverwriteInv s) {n : Nat}
    (hcap : r.capacity = s.ring.capacity) (htail : r.enqueuePos = s.ring.enqueuePos)
    (hhead : r.dequeuePos = s.ring.dequeuePos) (hok : OverwritePushOk s.ring pc) :
    OverwriteInv { s.goto t pc with ring := r, dropped := n } :=
  hi.of_same hcap htail hhead rfl (pushOk_goto hok hi.pushOk) hi.popOk

/-- A producer discards the oldest position of a non-empty ring. -/
theorem OverwriteInv.discard (hi : OverwriteInv s)
    (hok : ∀ r, OverwritePushOk r pc) (hlt : s.ring.dequeuePos < s.ring.enqueuePos) :
    OverwriteInv
      { s.goto t pc with
        ring := { s.ring with dequeuePos := s.ring.dequeuePos + 1 }
        discarded := s.discarded ++ [s.ring.dequeuePos] } := by
  refine hi.advance hlt rfl ?_ ?_ ?_
  · show ((s.discarded ++ [s.ring.dequeuePos]) ++ s.popped).Perm _
    rw [List.append_assoc, List.singleton_append]
    exact List.perm_middle
  · exact pushOk_goto (hok _) fun u =>
      (hi.pushOk u).mono rfl (Nat.le_refl _) (Nat.le_succ _)
  · exact hi.popOk.mono (Nat.le_refl _) (Nat.le_succ _)

theorem OverwriteInv.claim (hi : OverwriteInv s) (m : LogMsg) (hok : ∀ r, OverwritePushOk r pc)
    (hroom : s.ring.enqueuePos < s.ring.dequeuePos + s.ring.capacity) :
    OverwriteInv
      { s.goto t pc with
        ring := { s.ring with enqueuePos := s.ring.enqueuePos + 1 }
        claims := s.claims ++ [m] } := by
  refine ⟨Nat.le_succ_of_le hi.le, hroom, hi.gone, hi.once, ?_, ?_⟩
  · exact pushOk_goto (hok _) fun u =>
      (hi.pushOk u).mono rfl (Nat.le_succ _) (Nat.le_refl _)
  · exact hi.popOk.mono (Nat.le_succ _) (Nat.le_refl _)

/-- A producer step that meets the condition keeps the invariant. -/
theorem OverwriteInv.pushStep (hi : OverwriteInv s) (t : Tid) (spurious : Bool)
    (hstep : OverwriteStepOk s (.push t spurious)) : OverwriteInv (pushStep s t spurious) := by
  have hok := hi.pushOk t
  cases hpc : s.push t with (rw [hpc] at hok; simp only [Log.pushStep, hpc])
  | idle => exact hi
  | entry line level =>
      cases line with
      | none => exact hi.push_local rfl rfl rfl trivial
      | some line =>
          dsimp only
          split
          · split
            · exact hi.push_local rfl rfl rfl trivial
            · exact hi.push_local rfl rfl rfl trivial
          · exact hi.push_local rfl rfl rfl trivial
  | loadTail m => exact hi.push_local rfl rfl rfl (Nat.le_refl _)
  | loadHead m pos =>
      split
      · cases s.policy with
        | drop => exact hi.push_local rfl rfl rfl trivial
        | block => exact hi.push_local rfl rfl rfl trivial
        | overwrite => exact hi.push_local rfl rfl rfl trivial
      · rename_i hfull
        exact hi.push_local rfl rfl rfl ⟨hok, lt_of_not_ringFull hfull⟩
  | casHead m pos head =>
      split
      · rename_i hcas
        have hlt := hstep m pos head hpc hcas
        obtain ⟨rfl, -⟩ := hcas
        exact hi.discard (fun _ => trivial) hlt
      · exact hi.push_local rfl rfl rfl trivial
  | casTail m pos =>
      split
      · rename_i hcas
        obtain ⟨rfl, -⟩ := hcas
        exact hi.claim m (fun _ => trivial) hok.2
      · exact hi.push_local rfl rfl rfl trivial
  | spin m pos spins =>
      split
      · exact hi.push_local rfl rfl rfl trivial
      · split
        · exact hi.push_local rfl rfl rfl trivial
        · exact hi.push_local rfl rfl rfl trivial
  | recheck m pos =>
      split
      · exact hi.push_local rfl rfl rfl trivial
      · exact hi.push_local rfl rfl rfl trivial
  | writeText m pos i =>
      cases m.text.bytes[i]? with
      | some b => exact hi.push_local rfl rfl rfl trivial
      | none => exact hi.push_local rfl rfl rfl trivial
  | reloadHead pos tail =>
      split
      · exact hi.push_local rfl rfl rfl trivial
      · exact hi.push_local rfl rfl rfl trivial
  | _ => exact hi.push_local rfl rfl rfl trivial

/-- Step lemma: an action that meets the condition keeps the invariant. -/
theorem OverwriteInv.step (a : RingAction Tid) (hi : OverwriteInv s) (hstep : OverwriteStepOk s a) :
    OverwriteInv (ringStep s a) := by
  cases a with
  | call t line level =>
      simp only [ringStep, pushCall]
      cases s.push t with
      | idle => exact hi.push_local rfl rfl rfl trivial
      | _ => exact hi
  | push t spurious => exact hi.pushStep t spurious hstep
  | pop => exact hi.popStep hstep

theorem dequeuePos_mono_of_stepOk (a : RingAction Tid) (hstep : OverwriteStepOk s a) :
    s.ring.dequeuePos ≤ (ringStep s a).ring.dequeuePos := by
  cases a with
  | call t line level =>
      simp only [ringStep, pushCall]
      split <;> exact Nat.le_refl _
  | push t spurious =>
      cases hpc : s.push t with
      | casHead m pos head =>
          simp only [ringStep, pushStep, hpc]
          split
          · rename_i hcas
            exact hcas.1 ▸ Nat.le_succ _
          · exact Nat.le_refl _
      | _ =>
          simp only [ringStep, pushStep, hpc]
          repeat' split
          all_goals exact Nat.le_refl _
  | pop =>
      cases hpc : s.pop with
      | storeHead pos =>
          simp only [ringStep, popStep, hpc]
          exact hstep pos hpc ▸ Nat.le_succ _
      | _ =>
          simp only [ringStep, popStep, hpc]
          repeat' split
          all_goals exact Nat.le_refl _

/-- From a state of the invariant, the sound steps are those that meet the condition. -/
theorem OverwriteInv.sound_iff (a : RingAction Tid) (hi : OverwriteInv s) :
    OverwriteSound s (ringStep s a) ↔ OverwriteStepOk s a := by
  constructor
  · intro hsound
    cases a with
    | call t line level => trivial
    | push t spurious =>
        intro m pos head hpc hcas
        have hle := hsound.le
        simp only [ringStep, Log.pushStep, hpc, if_pos hcas, RingState.goto] at hle
        rw [hcas.1]
        exact hle
    | pop =>
        intro pos hpc
        have hok := hi.popOk
        rw [hpc] at hok
        -- a position below `dequeue_pos` is already on one of the two lists
        by_contra hne
        have hlt : pos < s.ring.dequeuePos := Nat.lt_of_le_of_ne hok.1 (Ne.symm hne)
        have hpopped : (ringStep s .pop).popped = s.popped ++ [pos] := by
          simp [ringStep, Log.popStep, hpc, RingState.popped]
        have hdiscarded : (ringStep s .pop).discarded = s.discarded := by
          simp [ringStep, Log.popStep, hpc]
        rcases List.mem_append.mp ((hi.gone pos).mpr hlt) with hin | hin
        · refine hsound.apart pos (hdiscarded ▸ hin) ?_
          rw [hpopped]
          exact List.mem_append_right _ (List.mem_singleton_self _)
        · have hnodup := hsound.once
          rw [hpopped, List.nodup_append] at hnodup
          exact hnodup.2.2 pos hin pos (List.mem_singleton_self _) rfl
  · intro hstep
    have hi' := hi.step a hstep
    have hnodup := List.nodup_append.mp hi'.once
    exact ⟨hi'.le, hi'.bound, dequeuePos_mono_of_stepOk a hstep, hnodup.2.1,
      fun p hd hp => hnodup.2.2 p hd p hp rfl⟩

omit [DecidableEq Tid] in
theorem overwriteInv_ringInit (queueSize : Nat) :
    OverwriteInv (ringInit queueSize .overwrite : RingState Tid) := by
  refine ⟨Nat.le_refl _, Nat.zero_le _, ?_, List.nodup_nil, fun _ => trivial, trivial⟩
  intro p
  simp [ringInit, nvLogRingInit, RingState.popped]

/--
Every step of a run under OVERWRITE is sound exactly when every discard is taken
from a non-empty ring and every pop stores `dequeue_pos` unmoved.
-/
theorem nvLogRing_overwrite_sound_iff
    (queueSize : Nat)
    (as : List (RingAction Tid)) :
    Transition.AlongSteps ringStep OverwriteSound
        (ringInit queueSize .overwrite) as ↔
      Transition.Along ringStep OverwriteStepOk
        (ringInit queueSize .overwrite) as :=
  along_iff_along_of_inv (overwriteInv_ringInit queueSize)
    (fun _ a hi hstep => hi.step a hstep) (fun _ a hi => hi.sound_iff a) as

end Overwrite

attribute [local instance] neZero_two in
/--
Producer 0 loads `enqueue_pos = 0`; producer 1 then pushes a line and the
consumer begins to pop it.
-/
def staleTailSetup : List (RingAction (Fin 2)) :=
  [RingAction.call 0 (some lineA) .info, .push 0 false, .push 0 false,
    .call 1 (some lineA) .info] ++
  List.replicate 12 (RingAction.push 1 false) ++
    [RingAction.pop, .pop, .pop]

attribute [local instance] neZero_two in
/--
The consumer finishes its pop; producer 0 loads `dequeue_pos = 1` and finds the ring full.
-/
def staleTailFinish : List (RingAction (Fin 2)) :=
  List.replicate 4 RingAction.pop ++ [RingAction.push 0 false, .push 0 false]

/--
A producer holding an old `enqueue_pos` takes `dequeue_pos` to 2 on a ring whose
`enqueue_pos` is 1.
-/
theorem stale_tail_discards_from_empty :
    ¬ Transition.AlongSteps ringStep OverwriteSound
      (ringInit 64 .overwrite)
      (staleTailSetup ++ List.replicate nvLogMsgMax .pop ++ staleTailFinish) := by
  intro h
  have hfinish := ((along_append _ _ _).mp h).2
  rw [run_append, run_copyText rfl (Nat.le_refl _)] at hfinish
  exact absurd hfinish.2.2.2.2.2.1.le (by decide +kernel)

end Libnv.Log
