import Libnv.Sys.TasksOnce

/-!
# What `nv_threadpool_wait_idle` waits for

The function returns once it finds `count == 0` under the lock.  `count` is the
length of the queue: a task that a worker has dequeued and is still running is
not part of it.
-/

namespace Libnv.ThreadPool

open Transition

universe u

variable {Tid : Type u} [DecidableEq Tid] {n : Nat}

/-- A call that returns in this step finds every task run that was accepted before it. -/
def IdleMeansDone (reuse : Pool → Pool) (s : PoolSystem Tid n) (a : PoolAction Tid n) : Prop :=
  ∀ t before, s.clients t = .waitIdle before → (poolStep reuse s a).clients t = .idle →
    ∀ i < before, 0 < executedCount (poolStep reuse s a).executed i

def WorkerPc.runsBefore (before : Nat) : WorkerPc → Bool
  | .running index _ => index < before
  | .top | .exited => false

/-- A call that finds the queue empty finds no worker with a task accepted before it. -/
def ClientPc.NoneRunning (tp : Pool) (workers : Fin n → WorkerPc) : ClientPc → Prop
  | .waitIdle before => tp.count = 0 → ∀ w, (workers w).runsBefore before = false
  | .idle | .add .. => True

instance (tp : Pool) (workers : Fin n → WorkerPc) :
    ∀ pc : ClientPc, Decidable (pc.NoneRunning tp workers)
  | .waitIdle before =>
      inferInstanceAs (Decidable (tp.count = 0 → ∀ w, (workers w).runsBefore before = false))
  | .idle | .add .. => inferInstanceAs (Decidable True)

/--
When a call of `nv_threadpool_wait_idle` finds the queue empty, no worker runs a
task that was accepted before the call.
-/
def NoneRunning (s : PoolSystem Tid n) : PoolAction Tid n → Prop
  | .client t => (s.clients t).NoneRunning s.tp s.workers
  | .call .. | .timeout _ | .worker _ | .callDestroy _ | .destroy => True

instance (s : PoolSystem Tid n) : ∀ a, Decidable (NoneRunning s a)
  | .client t => inferInstanceAs (Decidable ((s.clients t).NoneRunning s.tp s.workers))
  | .call .. | .timeout _ | .worker _ | .callDestroy _ | .destroy =>
      inferInstanceAs (Decidable True)

/-- The action belongs to `nv_threadpool_destroy`. -/
def PoolAction.ofDestroy : PoolAction Tid n → Bool
  | .callDestroy _ | .destroy => true
  | .call .. | .client _ | .timeout _ | .worker _ => false

section Moves

variable {s : PoolSystem Tid n}

inductive ClientMoves (s : PoolSystem Tid n) (a : PoolAction Tid n) (t : Tid) : ClientPc → Prop
  | stays : ClientMoves s a t (s.clients t)
  | callsAdd (task : Task) (timed : Bool) (h : s.clients t = .idle) :
      ClientMoves s a t (.add task timed false)
  | callsWaitIdle (h : s.clients t = .idle) : ClientMoves s a t (.waitIdle s.accepted.length)
  | waits (task : Task) (timed waiting : Bool) (h : s.clients t = .add task timed waiting) :
      ClientMoves s a t (.add task timed true)
  | added (task : Task) (timed waiting : Bool) (h : s.clients t = .add task timed waiting) :
      ClientMoves s a t .idle
  | idle (before : Nat) (h : s.clients t = .waitIdle before) (ha : a = .client t)
      (hcount : s.tp.count = 0) : ClientMoves s a t .idle

/-- What every step leaves alone or only extends. -/
structure StepFrame (s : PoolSystem Tid n) (a : PoolAction Tid n) (s' : PoolSystem Tid n) :
    Prop where
  moves : ∀ t, ClientMoves s a t (s'.clients t)
  accepted : s.accepted <+: s'.accepted
  destroy : a.ofDestroy = false → s'.destroy = s.destroy

variable {s' : PoolSystem Tid n} {a : PoolAction Tid n}

theorem StepFrame.of_client {t' : Tid} {pc : ClientPc} (h : ClientMoves s a t' pc)
    (hclients : s'.clients = Function.update s.clients t' pc)
    (haccepted : s.accepted <+: s'.accepted) (hdestroy : s'.destroy = s.destroy) :
    StepFrame s a s' where
  moves t := by
    rw [hclients]
    rcases eq_or_ne t t' with rfl | hne
    · rw [Function.update_self]
      exact h
    · rw [Function.update_of_ne hne]
      exact .stays
  accepted := haccepted
  destroy _ := hdestroy

omit [DecidableEq Tid] in
theorem StepFrame.of_clients_eq (hclients : s'.clients = s.clients)
    (haccepted : s'.accepted = s.accepted)
    (hdestroy : a.ofDestroy = false → s'.destroy = s.destroy) : StepFrame s a s' where
  moves t := by
    rw [hclients]
    exact .stays
  accepted := haccepted ▸ List.prefix_refl _
  destroy := hdestroy

omit [DecidableEq Tid] in
theorem StepFrame.of_destroy (hclients : s'.clients = s.clients)
    (haccepted : s'.accepted = s.accepted) (hdestroy : a.ofDestroy = true) : StepFrame s a s' := by
  refine .of_clients_eq hclients haccepted fun hnot => ?_
  rw [hdestroy] at hnot
  cases hnot

theorem callAdd_frame {t : Tid} (hidle : s.clients t = .idle) (task : Task) (timed : Bool) :
    StepFrame s a (callAdd s t task timed) := by
  unfold callAdd
  split
  · exact .of_client (hidle ▸ .stays) rfl (List.prefix_refl _) rfl
  · exact .of_client (.callsAdd task timed hidle) rfl (List.prefix_refl _) rfl

theorem clientStep_frame (t : Tid) : StepFrame s (.client t) (clientStep s t) := by
  unfold clientStep
  cases hpc : s.clients t with
  | idle => exact .of_clients_eq rfl rfl fun _ => rfl
  | add task timed waiting =>
      dsimp only
      split
      · exact .of_client (.waits task timed waiting hpc) rfl (List.prefix_refl _) rfl
      · refine .of_client (.added task timed waiting hpc) rfl ?_ rfl
        simp only [addReturns]
        split
        · exact List.prefix_append _ _
        · exact List.prefix_refl _
  | waitIdle before =>
      dsimp only
      split
      case isTrue => exact .of_clients_eq rfl rfl fun _ => rfl
      case isFalse hcount =>
        exact .of_client (.idle before hpc rfl (not_not.mp hcount)) rfl (List.prefix_refl _) rfl

theorem poolStep_frame (reuse : Pool → Pool) (a : PoolAction Tid n) :
    StepFrame s a (poolStep reuse s a) := by
  cases a with
  | call t call =>
      simp only [poolStep, callStep]
      split
      case isTrue hidle =>
        cases call with
        | add task => exact callAdd_frame hidle task false
        | addTimeout task timed => exact callAdd_frame hidle task timed
        | waitIdle => exact .of_client (.callsWaitIdle hidle) rfl (List.prefix_refl _) rfl
      case isFalse => exact .of_clients_eq rfl rfl fun _ => rfl
  | client t => exact clientStep_frame t
  | timeout t =>
      simp only [poolStep, timeoutStep]
      split
      case h_1 task hpc =>
        exact .of_client (.added task true true hpc) rfl (List.prefix_refl _) rfl
      case h_2 => exact .of_clients_eq rfl rfl fun _ => rfl
  | worker w =>
      simp only [poolStep, workerStep]
      split
      · split <;> exact .of_clients_eq rfl rfl fun _ => rfl
      · exact .of_clients_eq rfl rfl fun _ => rfl
      · exact .of_clients_eq rfl rfl fun _ => rfl
  | callDestroy mode =>
      simp only [poolStep]
      split <;> exact .of_destroy rfl rfl rfl
  | destroy =>
      simp only [poolStep, destroyStep]
      split
      · exact .of_destroy rfl rfl rfl
      · exact .of_destroy rfl rfl rfl
      · split_ifs <;> exact .of_destroy rfl rfl rfl
      · exact .of_destroy rfl rfl rfl
      · exact .of_destroy rfl rfl rfl

end Moves

section Invariant

/-- The pool is not being destroyed, and callers know only of accepted tasks. -/
structure IdleInv (s : PoolSystem Tid n) : Prop where
  pool : PoolInv s
  destroy : s.destroy = .notCalled
  before : ∀ t before, s.clients t = .waitIdle before → before ≤ s.accepted.length

variable {s : PoolSystem Tid n}

theorem IdleInv.step (h : IdleInv s) (reuse : Pool → Pool) {a : PoolAction Tid n}
    (ha : a.ofDestroy = false) : IdleInv (poolStep reuse s a) where
  pool := by
    have hlive := h.pool.live_of_not_returned (by simp [h.destroy])
    refine h.pool.step reuse a ?_
    cases a with
    | call t call => exact fun _ => hlive
    | client t => trivial
    | timeout t => trivial
    | worker w => trivial
    | callDestroy mode => cases ha
    | destroy => cases ha
  destroy := ((poolStep_frame reuse a).destroy ha).trans h.destroy
  before t before hb := by
    have hframe := poolStep_frame (s := s) reuse a
    refine Nat.le_trans ?_ hframe.accepted.length_le
    have hmoves := hframe.moves t
    rw [hb] at hmoves
    generalize hpc : ClientPc.waitIdle before = pc at hmoves
    cases hmoves with
    | stays => exact h.before t before hpc.symm
    | callsAdd => cases hpc
    | callsWaitIdle =>
        cases hpc
        exact Nat.le_refl _
    | waits => cases hpc
    | added => cases hpc
    | idle => cases hpc

omit [DecidableEq Tid] in
/-- With an empty queue every accepted task is being run or has been run. -/
theorem IdleInv.tally (h : IdleInv s) (hcount : s.tp.count = 0) {i : Nat}
    (hi : i < s.accepted.length) :
    executedCount s.executed i + (∑ w, (s.workers w).runs i) = 1 := by
  have hlive := h.pool.live_of_not_returned (by simp [h.destroy])
  have hlen := (h.pool.live hlive).queue.length
  rw [List.length_drop, hcount] at hlen
  have htally := h.pool.tasks.tally i
  rwa [if_pos (by omega)] at htally

theorem poolStep_waitIdle {t : Tid} {before : Nat} (reuse : Pool → Pool)
    (ht : s.clients t = .waitIdle before) (hcount : s.tp.count = 0) :
    poolStep reuse s (.client t) =
      { s with clients := Function.update s.clients t .idle } := by
  simp only [poolStep, clientStep, ht, hcount]
  rfl

theorem WorkerPc.runs_eq_zero {pc : WorkerPc} {before i : Nat} (h : pc.runsBefore before = false)
    (hi : i < before) : pc.runs i = 0 := by
  cases pc with
  | top => rfl
  | exited => rfl
  | running index task =>
      simp only [runsBefore, decide_eq_false_iff_not] at h
      exact if_neg (by omega)

/-- Exactly the condition makes the step keep the promise. -/
theorem IdleInv.done_iff (h : IdleInv s) (reuse : Pool → Pool) (a : PoolAction Tid n) :
    IdleMeansDone reuse s a ↔ NoneRunning s a := by
  constructor
  · intro hdone
    cases a with
    | client t =>
        rw [NoneRunning]
        cases hpc : s.clients t with
        | idle => trivial
        | add task timed waiting => trivial
        | waitIdle before =>
            intro hcount w
            cases hw : s.workers w with
            | top => rfl
            | exited => rfl
            | running index task =>
                have hstep := poolStep_waitIdle reuse hpc hcount
                refine decide_eq_false fun hlt => ?_
                -- the task counts as running, so it cannot count as run
                have hrun := hdone t before hpc (by simp [hstep]) index hlt
                rw [hstep] at hrun
                have htally := h.tally hcount (Nat.lt_of_lt_of_le hlt (h.before t before hpc))
                have hone := Tally.le_sum (fun w => (s.workers w).runs index) w
                simp only [hw, WorkerPc.runs_running, if_true] at hone
                dsimp only at hrun
                omega
    | call t call => trivial
    | timeout t => trivial
    | worker w => trivial
    | callDestroy mode => trivial
    | destroy => trivial
  · intro hnone t before ht hidle i hi
    have hmoves := (poolStep_frame (s := s) reuse a).moves t
    rw [hidle] at hmoves
    generalize hpc : ClientPc.idle = pc at hmoves
    cases hmoves with
    | stays => cases hpc.trans ht
    | callsAdd => cases hpc
    | callsWaitIdle => cases hpc
    | waits => cases hpc
    | added task timed waiting hadd => cases hadd.symm.trans ht
    | idle before' _ ha hcount =>
        subst ha
        rw [NoneRunning, ht] at hnone
        have htally := h.tally hcount (Nat.lt_of_lt_of_le hi (h.before t before ht))
        have hzero : (∑ w, (s.workers w).runs i) = 0 :=
          Finset.sum_eq_zero fun w _ => WorkerPc.runs_eq_zero (hnone hcount w) hi
        rw [poolStep_waitIdle reuse ht hcount]
        dsimp only
        omega

end Invariant

omit [DecidableEq Tid] in
theorem idleInv_init {threadCount queueCapacity : Int} {queue : Nat → Task} {tp : Pool}
    (h : nvThreadpoolCreate threadCount queueCapacity queue = some tp) :
    IdleInv (poolInit tp : PoolSystem Tid tp.threadCount) where
  pool := poolInv_init h
  destroy := rfl
  before t before hb := by cases hb

/--
In a run without `nv_threadpool_destroy`, `nv_threadpool_wait_idle` means done
at each of its returns exactly when no worker is then running a task that was
accepted before the call.
-/
theorem nvThreadpool_waitIdle_means_done_iff
    (reuse : Pool → Pool)
    (threadCount queueCapacity : Int)
    (queue : Nat → Task)
    (tp : Pool)
    (hcreate : nvThreadpoolCreate threadCount queueCapacity queue = some tp)
    (as : List (PoolAction Tid tp.threadCount))
    (hopen : ∀ a ∈ as, a.ofDestroy = false) :
    Along (poolStep reuse) (IdleMeansDone reuse) (poolInit tp) as ↔
      Along (poolStep reuse) NoneRunning (poolInit tp) as :=
  @along_iff_along _ _ (poolStep reuse) IdleInv _ _ _ _ _
    (fun _ _ h ha _ => IdleInv.step h reuse ha) (fun _ a h _ => IdleInv.done_iff h reuse a)
    (idleInv_init hcreate) hopen

attribute [local instance] neZero_one in
/-- A task is added and run before the caller looks. -/
def runThenWait : List (PoolAction Unit 1) :=
  [.call () (.add ⟨1, 10⟩), .client (), .worker 0, .worker 0, .call () .waitIdle, .client ()]

/-- The caller returns with the task done. -/
theorem waitIdle_after_run_means_done :
    Along (poolStep id) (IdleMeansDone id) (poolInit smallPool) runThenWait :=
  (nvThreadpool_waitIdle_means_done_iff id 1 1 (fun _ => ⟨0, 0⟩) smallPool rfl runThenWait
    (by decide)).mpr (by decide +kernel)

attribute [local instance] neZero_one in
/-- The caller looks while the worker runs the task. -/
def waitWhileRunning : List (PoolAction Unit 1) :=
  [.call () (.add ⟨1, 10⟩), .client (), .worker 0, .call () .waitIdle]

/-- `nv_threadpool_wait_idle` returns `NV_TP_OK` before the only task has been run. -/
theorem waitIdle_returns_early :
    (run (poolStep id) (poolInit smallPool) waitWhileRunning).clients () = .waitIdle 1 ∧
      (run (poolStep id) (poolInit smallPool) (waitWhileRunning ++ [.client ()])).clients () =
        .idle ∧
      (run (poolStep id) (poolInit smallPool) (waitWhileRunning ++ [.client ()])).executed = [] := by
  decide +kernel

end Libnv.ThreadPool
