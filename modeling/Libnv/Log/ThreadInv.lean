import Libnv.Log.RingFifo
import Libnv.Log.Thread

/-!
# The invariant of producers, log thread and `nv_log_close`

Every position that the log thread pops is written, ignored (popped with the
mutex held) or still in the thread's buffer, and the final loop ends only when
the ring is empty or at a position that is claimed and not published.
-/

namespace Libnv.Log

universe u

section Frames

variable {Tid : Type u} [DecidableEq Tid]

/-- The position of a push that will return `0`, from publication on. -/
def PushPc.done? : PushPc → Option Nat
  | .reloadTail pos => some pos
  | .reloadHead pos _ => some pos
  | .signal pos => some pos
  | .ret rc pos => if rc = 0 then pos else none
  | _ => none

/-- What a producer leaves alone, and what only grows. -/
structure PushFrame (s s' : RingState Tid) : Prop where
  pop : s'.pop = s.pop
  out : s'.out = s.out
  delivered : s'.delivered = s.delivered
  claims : ∀ (p : Nat) m, s.claims[p]? = some m → s'.claims[p]? = some m
  tail : s.ring.enqueuePos ≤ s'.ring.enqueuePos

omit [DecidableEq Tid] in
theorem PushFrame.of_eq {s s' : RingState Tid} (hpop : s'.pop = s.pop) (hout : s'.out = s.out)
    (hdelivered : s'.delivered = s.delivered) (hclaims : s'.claims = s.claims)
    (htail : s'.ring.enqueuePos = s.ring.enqueuePos) : PushFrame s s' := by
  refine ⟨hpop, hout, hdelivered, ?_, Nat.le_of_eq htail.symm⟩
  intro p m h
  rw [hclaims]
  exact h

theorem pushCall_frame (s : RingState Tid) (t : Tid) (line : Option CString) (level : LogLevel) :
    PushFrame s (pushCall s t line level) := by
  unfold pushCall
  split <;> exact .of_eq rfl rfl rfl rfl rfl

theorem pushStep_frame (s : RingState Tid) (t : Tid) (spurious : Bool) :
    PushFrame s (pushStep s t spurious) := by
  cases hpc : s.push t with
  | casTail m pos =>
      simp only [pushStep, hpc]
      split
      · rename_i hcas
        refine ⟨rfl, rfl, rfl, ?_, ?_⟩
        · intro p m' h
          exact List.getElem?_append_left (List.getElem?_eq_some_iff.mp h).1 ▸ h
        · exact hcas.1 ▸ Nat.le_succ _
      · exact .of_eq rfl rfl rfl rfl rfl
  | _ =>
      simp only [pushStep, hpc]
      repeat' split
      all_goals exact .of_eq rfl rfl rfl rfl rfl

/-- A push that will return `0` has claimed its position. -/
def DoneClaimed (s : RingState Tid) : Prop :=
  ∀ t p, (s.push t).done? = some p → p < s.ring.enqueuePos

theorem DoneClaimed.goto {s s' : RingState Tid} {t : Tid} {pc : PushPc} (hd : DoneClaimed s)
    (hpush : s'.push = (s.goto t pc).push) (htail : s.ring.enqueuePos ≤ s'.ring.enqueuePos)
    (hpc : ∀ p, pc.done? = some p → p < s.ring.enqueuePos) : DoneClaimed s' := by
  have hbefore : ∀ u p, ((s.goto t pc).push u).done? = some p → p < s.ring.enqueuePos :=
    forall_goto (P := fun _ q => ∀ p, q.done? = some p → p < s.ring.enqueuePos)
      hpc fun u _ => hd u
  intro u p h
  rw [hpush] at h
  exact Nat.lt_of_lt_of_le (hbefore u p h) htail

theorem doneClaimed_pushStep {s : RingState Tid} (hi : FifoInv s) (hd : DoneClaimed s)
    (t : Tid) (spurious : Bool) : DoneClaimed (pushStep s t spurious) := by
  have htail := (pushStep_frame s t spurious).tail
  have hdone := hd t
  have hok := hi.pushOk t
  cases hpc : s.push t <;> rw [hpc] at hdone hok <;>
    simp only [pushStep, hpc] at htail ⊢
  case idle => exact hd
  case publish m pos =>
    refine hd.goto rfl htail ?_
    rintro p ⟨⟩
    exact hok.1.2.1
  case reloadTail pos => exact hd.goto rfl htail hdone
  case reloadHead pos tail =>
    split at htail <;> rename_i hlt
    · rw [if_pos hlt]
      exact hd.goto rfl htail hdone
    · rw [if_neg hlt]
      exact hd.goto rfl htail hdone
  case signal pos => exact hd.goto rfl htail hdone
  all_goals
    revert htail
    repeat' split
    all_goals
      intro htail
      refine hd.goto rfl htail ?_
      intro p h
      cases h

end Frames

section Invariant

variable {Tid : Type u}

/-- Points of `nv_log_thread_main` outside its calls. -/
def ThreadPc.between : ThreadPc → Bool
  | .checkStop _ | .lock | .waiting | .woken | .unlock => true
  | .pop _ | .write _ | .exited => false

/-- The thread is in its final loop, or past it. -/
def ThreadPc.draining : ThreadPc → Bool
  | .pop .drain => true
  | .write .drain => true
  | .exited => true
  | _ => false

def ClosePc.joined : ClosePc → Bool
  | .teardown => true
  | .clearReady => true
  | .returned => true
  | _ => false

/-- The ring has been freed. -/
def ClosePc.tornDown : ClosePc → Bool
  | .clearReady => true
  | .returned => true
  | _ => false

/-- A popped message is in the thread's buffer, neither written nor ignored yet. -/
def LogSystem.holding (s : LogSystem Tid) : Bool :=
  match s.thread with
  | .pop _ => s.core.pop = .ret true
  | .write _ => true
  | _ => false

/-- The position of that message. -/
def LogSystem.pending (s : LogSystem Tid) : List Nat :=
  if s.holding then s.lastPopped else []

/-- The final loop has seen its last pop fail. -/
def LogSystem.drained (s : LogSystem Tid) : Prop :=
  s.thread = .exited ∨ s.thread = .pop .drain ∧ s.core.pop = .ret false

/-- What holds of the ring until it is freed. -/
structure LiveInv (s : LogSystem Tid) : Prop where
  fifo : FifoInv s.core
  done : DoneClaimed s.core
  claimed : ∀ p ∈ s.accepted, p < s.core.ring.enqueuePos

/-- How the final loop can end. -/
def DrainEnd (s : LogSystem Tid) : Prop :=
  (s.gaveUp = none ∧ ∀ p ∈ s.accepted, p < s.core.delivered.length) ∨
    s.gaveUp = some s.core.delivered.length

/-- The invariant of producers, log thread and closing thread. -/
structure LogInv (s : LogSystem Tid) : Prop where
  order : s.core.delivered.map Prod.fst = List.range s.core.delivered.length
  contents : ∀ x ∈ s.core.delivered, Returned s.core.claims x.1 x.2
  accounts : (s.written.map Prod.fst ++ s.ignored ++ s.pending).Perm
    (s.core.delivered.map Prod.fst)
  writes : ∀ x ∈ s.written, x ∈ s.core.delivered
  buffer : s.holding → ∃ pos, s.core.delivered.getLast? = some (pos, s.core.out)
  idle : (∀ site, s.thread ≠ .pop site) → s.core.pop = .idle
  stopped : s.stop → s.close ≠ .notCalled
  draining : s.thread.draining → s.close ≠ .notCalled
  joined : s.close.joined → s.thread = .exited
  live : ¬ s.close.tornDown → LiveInv s
  ended : s.drained → DrainEnd s
  unended : ¬ s.drained → s.gaveUp = none

variable {s : LogSystem Tid}

theorem LogSystem.drained.draining (h : s.drained) : s.thread.draining := by
  rcases h with h | h
  · rw [h]
    rfl
  · rw [h.1]
    rfl

/-- Before the thread has ended the ring is there. -/
theorem LogInv.running (hi : LogInv s) (h : s.thread ≠ .exited) : LiveInv s := by
  refine hi.live ?_
  intro hdown
  refine h (hi.joined ?_)
  cases hc : s.close <;> simp_all [ClosePc.joined, ClosePc.tornDown]

/-- A producer's step on the ring. -/
theorem LogInv.core_push (hi : LogInv s) {core : RingState Tid} (hframe : PushFrame s.core core)
    (hfifo : FifoInv s.core → DoneClaimed s.core → FifoInv core ∧ DoneClaimed core) :
    LogInv { s with core := core } := by
  have hhold : ({ s with core := core } : LogSystem Tid).holding = s.holding := by
    simp only [LogSystem.holding, hframe.pop]
  have hlast : ({ s with core := core } : LogSystem Tid).pending = s.pending := by
    unfold LogSystem.pending
    rw [hhold]
    simp only [LogSystem.lastPopped, hframe.delivered]
  have hdrained : ({ s with core := core } : LogSystem Tid).drained ↔ s.drained := by
    simp only [LogSystem.drained, hframe.pop]
  refine ⟨?_, ?_, ?_, ?_, ?_, ?_, hi.stopped, hi.draining, hi.joined, ?_, ?_, ?_⟩
  · rw [hframe.delivered]
    exact hi.order
  · intro x hx
    rw [hframe.delivered] at hx
    obtain ⟨m, hm, hret⟩ := hi.contents x hx
    exact ⟨m, hframe.claims _ m hm, hret⟩
  · rw [hlast, hframe.delivered]
    exact hi.accounts
  · rw [hframe.delivered]
    exact hi.writes
  · rw [hhold, hframe.delivered, hframe.out]
    exact hi.buffer
  · rw [hframe.pop]
    exact hi.idle
  · intro hdown
    have hl := hi.live hdown
    obtain ⟨hf, hd⟩ := hfifo hl.fifo hl.done
    exact ⟨hf, hd, fun p hp => Nat.lt_of_lt_of_le (hl.claimed p hp) hframe.tail⟩
  · rw [hdrained]
    intro h
    simp only [DrainEnd, hframe.delivered]
    exact hi.ended h
  · rw [hdrained]
    exact hi.unended

/-- A wake-up changes nothing that the invariant speaks of. -/
theorem LogInv.wake (hi : LogInv s) : LogInv { s with thread := wake s.thread } := by
  cases hpc : s.thread with
  | waiting =>
      have hnot : ¬ s.drained := by
        rintro (h | h) <;> simp [hpc] at h
      refine ⟨hi.order, hi.contents, ?_, hi.writes, ?_, ?_, hi.stopped, ?_, ?_, ?_, ?_, ?_⟩
      · have h := hi.accounts
        simpa [LogSystem.pending, LogSystem.holding, Log.wake, hpc] using h
      · simp [LogSystem.holding, Log.wake]
      · intro _
        exact hi.idle (by simp [hpc])
      · simp [ThreadPc.draining, Log.wake]
      · intro hj
        have h := hi.joined hj
        simp [hpc] at h
      · intro hdown
        obtain ⟨hf, hd, hc⟩ := hi.live hdown
        exact ⟨hf, hd, hc⟩
      · rintro (h | h) <;> simp [Log.wake] at h
      · intro _
        exact hi.unended hnot
  | _ =>
      have hsame : ({ s with thread := Log.wake s.thread } : LogSystem Tid) = s := by
        rw [hpc]
        simp only [Log.wake, ← hpc]
      rw [← hpc, hsame]
      exact hi

/-- A push returns `0` before `nv_log_close` is called. -/
theorem LogInv.accept (hi : LogInv s) (hclose : s.close = .notCalled) (ps : List Nat)
    (hps : ∀ p ∈ ps, p < s.core.ring.enqueuePos) :
    LogInv { s with accepted := s.accepted ++ ps } := by
  have hnot : ¬ s.drained := fun h => hi.draining h.draining hclose
  refine ⟨hi.order, hi.contents, hi.accounts, hi.writes, hi.buffer, hi.idle,
    hi.stopped, hi.draining, hi.joined, ?_, fun h => absurd h hnot, hi.unended⟩
  intro hdown
  obtain ⟨hf, hd, hc⟩ := hi.live hdown
  refine ⟨hf, hd, ?_⟩
  intro p hp
  rcases List.mem_append.mp hp with h | h
  · exact hc p h
  · exact hps p h

end Invariant

section ThreadSteps

variable {Tid : Type u} {s : LogSystem Tid} {site : PopSite}

theorem doneClaimed_popStep {s : RingState Tid} (hd : DoneClaimed s) : DoneClaimed (popStep s) := by
  obtain ⟨hpush, -, -, htail, -⟩ := popStep_frame s
  intro t p h
  rw [hpush] at h
  rw [htail]
  exact hd t p h

theorem LiveInv.popStep (hl : LiveInv s) {s' : LogSystem Tid} (hcore : s'.core = Log.popStep s.core)
    (haccepted : s'.accepted = s.accepted) : LiveInv s' := by
  refine ⟨?_, ?_, ?_⟩
  · rw [hcore]
    exact hl.fifo.popStep
  · rw [hcore]
    exact doneClaimed_popStep hl.done
  · rw [hcore, haccepted, (popStep_frame s.core).2.2.2.1]
    exact hl.claimed

/-- Only the store of the new head position takes a message. -/
theorem popStep_takes_nothing {c : RingState Tid} (h : ∀ pos, c.pop ≠ .storeHead pos) :
    (popStep c).pop ≠ .ret true ∧ (popStep c).delivered = c.delivered := by
  cases hpc : c.pop with
  | storeHead pos => exact absurd hpc (h pos)
  | loadTail pos | loadSeq pos | copyText pos i =>
      simp only [popStep, hpc]
      split <;> simp
  | _ => simp [popStep, hpc]

/-- The pop proceeds, or fails, without taking a message. -/
theorem LogInv.pop_core (hi : LogInv s) (hthread : s.thread = .pop site)
    (hbefore : s.core.pop ≠ .ret true) (htake : ∀ pos, s.core.pop ≠ .storeHead pos) {g : Option Nat}
    (hended : site = .drain → (popStep s.core).pop = .ret false →
      (g = none ∧ ∀ p ∈ s.accepted, p < s.core.delivered.length) ∨
        g = some s.core.delivered.length)
    (hunended : ¬ (site = .drain ∧ (popStep s.core).pop = .ret false) → g = none) :
    LogInv { s with core := popStep s.core, gaveUp := g } := by
  obtain ⟨hafter, hdelivered⟩ := popStep_takes_nothing htake
  have hlive := hi.running (by simp [hthread])
  refine ⟨?_, ?_, ?_, ?_, ?_, ?_, hi.stopped, hi.draining, hi.joined, ?_, ?_, ?_⟩
  · rw [hdelivered]
    exact hi.order
  · rw [hdelivered, (popStep_frame s.core).2.2.1]
    exact hi.contents
  · have h := hi.accounts
    simp only [LogSystem.pending, LogSystem.holding, hthread, hbefore, hafter,
      decide_false, Bool.false_eq_true, if_false, hdelivered] at h ⊢
    exact h
  · rw [hdelivered]
    exact hi.writes
  · simp [LogSystem.holding, hthread, hafter]
  · intro h
    exact absurd hthread (h site)
  · intro _
    exact hlive.popStep rfl rfl
  · rintro (h | ⟨h, hpop⟩)
    · simp [hthread] at h
    · have hsite : site = .drain := by simpa [hthread] using h
      simp only [DrainEnd, hdelivered]
      exact hended hsite hpop
  · intro h
    refine hunended ?_
    rintro ⟨rfl, hpop⟩
    exact h (Or.inr ⟨hthread, hpop⟩)

theorem LogInv.pop_take (hi : LogInv s) (hthread : s.thread = .pop site)
    {pos : Nat} (hpc : s.core.pop = .storeHead pos) : LogInv { s with core := popStep s.core } := by
  have hlive := hi.running (by simp [hthread])
  have hlive' : LiveInv { s with core := popStep s.core } := hlive.popStep rfl rfl
  have hdelivered : (popStep s.core).delivered = s.core.delivered ++ [(pos, s.core.out)] := by
    simp [popStep, hpc]
  have hpop : (popStep s.core).pop = .ret true := by simp [popStep, hpc]
  have hout : (popStep s.core).out = s.core.out := by simp [popStep, hpc]
  have hnot : ¬ s.drained := by
    rintro (h | ⟨-, h⟩)
    · simp [hthread] at h
    · simp [hpc] at h
  refine ⟨?_, ?_, ?_, ?_, ?_, ?_, hi.stopped, hi.draining, hi.joined, fun _ => hlive', ?_, ?_⟩
  · have h := hlive'.fifo.order
    have hlen := congrArg List.length h
    simp only [List.length_map, List.length_range] at hlen
    rw [hlen]
    exact h
  · exact hlive'.fifo.returned
  · have h := hi.accounts
    simp only [LogSystem.pending, LogSystem.holding, LogSystem.lastPopped, hthread, hpc,
      hpop, reduceCtorEq, decide_false, decide_true, Bool.false_eq_true, if_false, if_true,
      List.append_nil, hdelivered, List.getLast?_append, List.getLast?_singleton,
      Option.some_or, Option.map_some, Option.toList_some, List.map_append, List.map_cons,
      List.map_nil] at h ⊢
    exact h.append_right _
  · intro x hx
    rw [hdelivered]
    exact List.mem_append_left _ (hi.writes x hx)
  · intro _
    refine ⟨pos, ?_⟩
    rw [hdelivered, hout]
    simp
  · intro h
    exact absurd hthread (h site)
  · rintro (h | ⟨-, h⟩)
    · simp [hthread] at h
    · simp [hpop] at h
  · intro _
    exact hi.unended hnot

/-- The thread moves between points at which its buffer is dead. -/
theorem LogInv.move (hi : LogInv s) (hhold : s.holding = false) (hidle : s.core.pop = .idle)
    (hnot : ¬ s.drained) {th : ThreadPc} {l : Bool}
    (hwrite : ∀ site, th ≠ .write site) (hexit : th ≠ .exited)
    (hdrain : th.draining → s.close ≠ .notCalled) :
    LogInv { s with thread := th, locked := l } := by
  have hhold' : ({ s with thread := th, locked := l } : LogSystem Tid).holding = false := by
    cases th with
    | pop site => simp [LogSystem.holding, hidle]
    | write site => exact absurd rfl (hwrite site)
    | _ => rfl
  refine ⟨hi.order, hi.contents, ?_, hi.writes, ?_, fun _ => hidle, hi.stopped, hdrain,
    ?_, ?_, ?_, fun _ => hi.unended hnot⟩
  · have h := hi.accounts
    simp only [LogSystem.pending, hhold, hhold', Bool.false_eq_true, if_false] at h ⊢
    exact h
  · simp [hhold']
  · intro hj
    exact absurd (Or.inl (hi.joined hj)) hnot
  · intro hdown
    obtain ⟨hf, hd, hc⟩ := hi.live hdown
    exact ⟨hf, hd, hc⟩
  · rintro (h | ⟨-, h⟩)
    · exact absurd h hexit
    · simp [hidle] at h

theorem LogInv.pop_failed (hi : LogInv s) (hthread : s.thread = .pop site)
    (hpc : s.core.pop = .ret false) :
    LogInv { s with core := popStep s.core, thread := afterPop site false } := by
  have hlive := hi.running (by simp [hthread])
  have hpop : popStep s.core = { s.core with pop := .idle } := by simp [popStep, hpc]
  have hhold : s.holding = false := by simp [LogSystem.holding, hthread, hpc]
  have hhold' : ({ s with
      core := popStep s.core, thread := afterPop site false } : LogSystem Tid).holding =
      false := by
    cases site <;> rfl
  have hdraining : (afterPop site false).draining → s.drained := by
    intro h
    refine Or.inr ⟨?_, hpc⟩
    cases site <;> simp_all [afterPop, ThreadPc.draining]
  refine ⟨?_, ?_, ?_, ?_, ?_, ?_, hi.stopped, ?_, ?_, fun _ => hlive.popStep rfl rfl, ?_, ?_⟩
  · rw [hpop]
    exact hi.order
  · rw [hpop]
    exact hi.contents
  · have h := hi.accounts
    simp only [LogSystem.pending, hhold, hhold', Bool.false_eq_true, if_false] at h ⊢
    rw [hpop]
    exact h
  · rw [hpop]
    exact hi.writes
  · simp [hhold']
  · intro _
    rw [hpop]
  · intro h
    exact hi.draining (hdraining h).draining
  · intro hj
    have h := hi.joined hj
    simp [hthread] at h
  · intro h
    simp only [DrainEnd, hpop]
    exact hi.ended (hdraining h.draining)
  · intro h
    refine hi.unended ?_
    rintro (h' | ⟨h', -⟩)
    · simp [hthread] at h'
    · refine h (Or.inl ?_)
      have hsite : site = .drain := by simpa [hthread] using h'
      rw [hsite]
      rfl

theorem draining_of_afterPop (site : PopSite) :
    (afterPop site true).draining → (ThreadPc.pop site).draining := by
  cases site <;> decide

theorem draining_of_afterWrite (site : PopSite) :
    (afterWrite site).draining → (ThreadPc.write site).draining := by
  cases site <;> decide

variable (hi : LogInv s)
include hi

theorem LogInv.pop_returned (hthread : s.thread = .pop site)
    (hpc : s.core.pop = .ret true) :
    LogInv { s with
      core := popStep s.core
      thread := afterPop site true
      ignored := if site = .locked then s.ignored ++ s.lastPopped else s.ignored } := by
  have hlive := hi.running (by simp [hthread])
  have hpop : popStep s.core = { s.core with pop := .idle } := by simp [popStep, hpc]
  have hhold : s.holding = true := by simp [LogSystem.holding, hthread, hpc]
  have hnot : ¬ s.drained := by
    rintro (h | ⟨-, h⟩)
    · simp [hthread] at h
    · simp [hpc] at h
  refine ⟨?_, ?_, ?_, ?_, ?_, ?_, hi.stopped, ?_, ?_, fun _ => hlive.popStep rfl rfl, ?_,
    fun _ => hi.unended hnot⟩
  · rw [hpop]
    exact hi.order
  · rw [hpop]
    exact hi.contents
  · have h := hi.accounts
    simp only [LogSystem.pending, hhold, if_true] at h
    rw [hpop]
    cases site <;>
      simpa [LogSystem.pending, LogSystem.holding, LogSystem.lastPopped, afterPop] using h
  · rw [hpop]
    exact hi.writes
  · rw [hpop]
    intro _
    exact hi.buffer hhold
  · intro _
    rw [hpop]
  · intro h
    refine hi.draining ?_
    rw [hthread]
    exact draining_of_afterPop site h
  · intro hj
    have h := hi.joined hj
    simp [hthread] at h
  · rintro (h | ⟨h, -⟩) <;> cases site <;> simp [afterPop] at h

theorem LogInv.write (hthread : s.thread = .write site) :
    LogInv { s with
      thread := afterWrite site
      written := s.written ++ s.lastPopped.map fun pos => (pos, s.core.out) } := by
  have hhold : s.holding = true := by simp [LogSystem.holding, hthread]
  have hidle := hi.idle (by simp [hthread])
  obtain ⟨pos, hlast⟩ := hi.buffer hhold
  have hpopped : s.lastPopped = [pos] := by simp [LogSystem.lastPopped, hlast]
  have hnot : ¬ s.drained := by
    rintro (h | ⟨h, -⟩) <;> simp [hthread] at h
  obtain ⟨site', hsite'⟩ : ∃ site', afterWrite site = .pop site' := by
    cases site <;> exact ⟨_, rfl⟩
  refine ⟨hi.order, hi.contents, ?_, ?_, ?_, fun _ => hidle, hi.stopped, ?_, ?_, ?_, ?_,
    fun _ => hi.unended hnot⟩
  · have h := hi.accounts
    simp only [LogSystem.pending, hhold, if_true, hpopped] at h
    simp only [LogSystem.pending, LogSystem.holding, hpopped, hsite', hidle,
      reduceCtorEq, decide_false, Bool.false_eq_true, if_false, List.append_nil,
      List.map_append, List.map_cons, List.map_nil]
    refine List.Perm.trans ?_ h
    rw [List.append_assoc, List.append_assoc]
    exact List.perm_append_comm.append_left _
  · intro x hx
    rw [hpopped] at hx
    rcases List.mem_append.mp hx with h | h
    · exact hi.writes x h
    · have hx' : x = (pos, s.core.out) := by simpa using h
      rw [hx']
      exact List.mem_of_getLast? hlast
  · simp [LogSystem.holding, hsite', hidle]
  · intro h
    refine hi.draining ?_
    rw [hthread]
    exact draining_of_afterWrite site h
  · intro hj
    have h := hi.joined hj
    simp [hthread] at h
  · intro hdown
    obtain ⟨hf, hd, hc⟩ := hi.live hdown
    exact ⟨hf, hd, hc⟩
  · rintro (h | ⟨-, h⟩)
    · simp [hsite'] at h
    · simp [hidle] at h

theorem LogInv.popSiteStep (hthread : s.thread = .pop site) : LogInv (popSiteStep s site) := by
  have hlive := hi.running (by simp [hthread])
  have hok := hlive.fifo.popOk
  have hlen : s.core.delivered.length = s.core.ring.dequeuePos := by
    have h := congrArg List.length hlive.fifo.order
    simpa using h
  have hnone : s.core.pop ≠ .ret false → s.gaveUp = none := by
    intro h
    refine hi.unended ?_
    rintro (h' | ⟨-, h'⟩)
    · simp [hthread] at h'
    · exact h h'
  cases hpc : s.core.pop with (rw [hpc] at hok; simp only [Log.popSiteStep, hpc])
  | ret ok =>
      cases ok with
      | true => simpa using hi.pop_returned hthread hpc
      | false => simpa using hi.pop_failed hthread hpc
  | loadSeq pos =>
      refine hi.pop_core hthread (by simp [hpc]) (by simp [hpc]) ?_ ?_
      · intro hsite hpop
        right
        have hseq : (s.core.ring.slot pos).seq ≠ pos + 1 := by
          intro h
          simp [popStep, hpc, h] at hpop
        rw [if_pos ⟨hsite, hseq⟩, hlen, hok.1]
      · intro h
        split
        · rename_i hfail
          refine absurd ⟨hfail.1, ?_⟩ h
          simp [popStep, hpc, hfail.2]
        · exact hnone (by simp [hpc])
  | loadTail pos =>
      refine hi.pop_core hthread (by simp [hpc]) (by simp [hpc]) ?_ ?_
      · intro _ hpop
        refine Or.inl ⟨hnone (by simp [hpc]), ?_⟩
        have htail : s.core.ring.enqueuePos ≤ pos := by
          by_contra h
          simp [popStep, hpc, h] at hpop
        intro p hp
        have := hlive.claimed p hp
        rw [hlen, ← hok]
        omega
      · intro _
        exact hnone (by simp [hpc])
  | storeHead pos => exact hi.pop_take hthread hpc
  | copyText pos i =>
      refine hi.pop_core hthread (by simp [hpc]) (by simp [hpc]) ?_ ?_
      · intro _ hpop
        simp only [popStep, hpc] at hpop
        split at hpop <;> simp at hpop
      · intro _
        exact hnone (by simp [hpc])
  | _ =>
      refine hi.pop_core hthread (by simp [hpc]) (by simp [hpc]) ?_ ?_
      · simp [popStep, hpc]
      · intro _
        exact hnone (by simp [hpc])

/-- The thread goes on from a point outside its calls, where its buffer is dead. -/
theorem LogInv.move_between (hfrom : s.thread.between) {th : ThreadPc} {l : Bool}
    (hto : th.between ∨ ∃ site, th = .pop site) (hdrain : th.draining → s.close ≠ .notCalled) :
    LogInv { s with thread := th, locked := l } := by
  have hpop : ∀ site, s.thread ≠ .pop site := by
    intro site h
    simp [h, ThreadPc.between] at hfrom
  refine hi.move ?_ (hi.idle hpop) ?_ ?_ ?_ hdrain
  · cases hpc : s.thread <;> simp_all [LogSystem.holding, ThreadPc.between]
  · rintro (h | ⟨h, -⟩)
    · simp [h, ThreadPc.between] at hfrom
    · exact hpop _ h
  · rintro site rfl
    simp [ThreadPc.between] at hto
  · rintro rfl
    simp [ThreadPc.between] at hto

theorem LogInv.threadStep : LogInv (threadStep s) := by
  cases hpc : s.thread with (simp only [Log.threadStep, hpc])
  | pop site => exact hi.popSiteStep hpc
  | write site => exact hi.write hpc
  | checkStop site =>
      have hfrom : s.thread.between := by rw [hpc]; rfl
      cases site with (dsimp only)
      | main =>
          split
          · rename_i hstop
            exact hi.move_between hfrom (.inr ⟨_, rfl⟩) fun _ => hi.stopped hstop
          · exact hi.move_between hfrom (.inl rfl) nofun
      | locked =>
          split
          · exact hi.move_between hfrom (.inl rfl) nofun
          · exact hi.move_between hfrom (.inl rfl) nofun
      | afterWait =>
          split
          · rename_i hstop
            exact hi.move_between hfrom (.inr ⟨_, rfl⟩) fun _ => hi.stopped hstop
          · exact hi.move_between hfrom (.inr ⟨_, rfl⟩) nofun
      | drain => exact hi
  | waiting => exact hi
  | exited => exact hi
  | lock | woken | unlock =>
      have hfrom : s.thread.between := by rw [hpc]; rfl
      exact hi.move_between hfrom (by simp [ThreadPc.between]) nofun

end ThreadSteps

section Closing

variable {Tid : Type u} {s : LogSystem Tid} (hi : LogInv s)
include hi

theorem LogInv.close_move {c : ClosePc} {stop : Bool} (hcalled : c ≠ .notCalled)
    (hjoined : c.joined → s.thread = .exited) (hdown : ¬ s.close.tornDown) :
    LogInv { s with close := c, stop := stop } := by
  obtain ⟨hf, hd, hc⟩ := hi.live hdown
  exact ⟨hi.order, hi.contents, hi.accounts, hi.writes, hi.buffer, hi.idle,
    fun _ => hcalled, fun _ => hcalled, hjoined, fun _ => ⟨hf, hd, hc⟩, hi.ended, hi.unended⟩

/-- The ring is freed, or its flag cleared, after the join. -/
theorem LogInv.close_down (hexit : s.thread = .exited) {c : ClosePc} {stop : Bool}
    {core : RingState Tid} (hdown : c.tornDown)
    (hpop : core.pop = s.core.pop) (hclaims : core.claims = s.core.claims)
    (hdelivered : core.delivered = s.core.delivered) :
    LogInv { s with close := c, stop := stop, core := core } := by
  have hcalled : c ≠ .notCalled := by
    rintro rfl
    simp [ClosePc.tornDown] at hdown
  have hhold : s.holding = false := by simp [LogSystem.holding, hexit]
  refine ⟨?_, ?_, ?_, ?_, ?_, ?_, fun _ => hcalled, fun _ => hcalled, fun _ => hexit,
    fun h => absurd hdown h, ?_, ?_⟩
  · rw [hdelivered]
    exact hi.order
  · rw [hdelivered, hclaims]
    exact hi.contents
  · have h := hi.accounts
    simp only [LogSystem.pending, LogSystem.holding, hexit, Bool.false_eq_true, if_false,
      hdelivered] at h ⊢
    exact h
  · rw [hdelivered]
    exact hi.writes
  · simp [LogSystem.holding, hexit]
  · rw [hpop]
    exact hi.idle
  · intro _
    simp only [DrainEnd, hdelivered]
    exact hi.ended (Or.inl hexit)
  · intro h
    exact absurd (Or.inl hexit) h

theorem LogInv.closeStep : LogInv (closeStep s) := by
  cases hc : s.close with (simp only [Log.closeStep, hc])
  | notCalled =>
      exact hi.close_move (by simp) (by simp [ClosePc.joined]) (by simp [hc, ClosePc.tornDown])
  | setStop =>
      exact hi.close_move (by simp) (by simp [ClosePc.joined]) (by simp [hc, ClosePc.tornDown])
  | broadcast =>
      split
      · exact hi
      · exact hi.wake.close_move (by simp) (by simp [ClosePc.joined])
          (by simp [hc, ClosePc.tornDown])
  | join =>
      split
      · rename_i hexit
        exact hi.close_move (by simp) (fun _ => hexit) (by simp [hc, ClosePc.tornDown])
      · exact hi
  | teardown => exact hi.close_down (hi.joined (by simp [hc, ClosePc.joined])) rfl rfl rfl rfl
  | clearReady => exact hi.close_down (hi.joined (by simp [hc, ClosePc.joined])) rfl rfl rfl rfl
  | returned => exact hi

end Closing

section Runs

variable {Tid : Type u} [DecidableEq Tid] {s : LogSystem Tid}

theorem LogInv.core_pushStep (hi : LogInv s) (t : Tid) (spurious : Bool) :
    LogInv { s with core := pushStep s.core t spurious } :=
  hi.core_push (pushStep_frame s.core t spurious) fun hf hd =>
    ⟨hf.pushStep t spurious, doneClaimed_pushStep hf hd t spurious⟩

theorem LogInv.producerStep (hi : LogInv s) (t : Tid) (spurious : Bool) :
    LogInv (producerStep s t spurious) := by
  cases hpc : s.core.push t with
  | signal pos =>
      simp only [Log.producerStep, hpc]
      split
      · exact hi
      · exact (hi.core_pushStep t spurious).wake
  | ret rc pos =>
      simp only [Log.producerStep, hpc]
      split
      · rename_i hacc
        have hacc' := hi.accept hacc.1 pos.toList ?_
        · exact hacc'.core_pushStep t spurious
        · intro p hp
          have hlive := hi.live (by simp [hacc.1, ClosePc.tornDown])
          refine hlive.done t p ?_
          rw [hpc]
          simpa [PushPc.done?, hacc.2] using hp
      · exact hi.core_pushStep t spurious
  | _ =>
      simp only [Log.producerStep, hpc]
      exact hi.core_pushStep t spurious

/-- Step lemma: every action keeps the invariant. -/
theorem LogInv.step (a : LogAction Tid) (hi : LogInv s) : LogInv (logStep s a) := by
  cases a with
  | call t line level =>
      refine hi.core_push (pushCall_frame s.core t line level) fun hf hd => ⟨?_, ?_⟩
      · exact hf.step (.call t line level)
      · unfold pushCall
        split
        · refine hd.goto rfl (Nat.le_refl _) ?_
          intro p h
          cases h
        · exact hd
  | push t spurious => exact hi.producerStep t spurious
  | thread => exact hi.threadStep
  | wakeup => exact hi.wake
  | close => exact hi.closeStep

omit [DecidableEq Tid] in
theorem logInit_inv (queueSize : Nat) : LogInv (logInit queueSize : LogSystem Tid) := by
  have hnot : ¬ (logInit queueSize : LogSystem Tid).drained := by
    rintro (h | ⟨h, -⟩) <;> simp [logInit] at h
  refine ⟨rfl, ?_, ?_, ?_, ?_, ?_, ?_, ?_, ?_, ?_, fun h => absurd h hnot, fun _ => rfl⟩
  · simp [logInit, ringInit]
  · simp [logInit, ringInit, LogSystem.pending, LogSystem.holding]
  · simp [logInit]
  · simp [logInit, ringInit, LogSystem.holding]
  · intro h
    exact absurd rfl (h .main)
  · simp [logInit]
  · simp [logInit, ThreadPc.draining]
  · simp [logInit, ClosePc.joined]
  · intro _
    refine ⟨ringInit_fifoInv queueSize (by simp), ?_, ?_⟩
    · intro t p h
      simp [logInit, ringInit, PushPc.done?] at h
    · simp [logInit]

end Runs

end Libnv.Log
