import Libnv.Lib.Tally
import Libnv.Lib.Transition
import Libnv.Sys.ThreadPool

/-!
# Each accepted task runs once

The queue holds the accepted tasks that have not been dequeued, and a dequeued
task is either being run by one worker or has been run once.  Workers leave only
after `shutdown` was set, with an empty queue unless the mode is immediate, and
nothing is accepted from then on.

`nv_threadpool_destroy` waits for the workers but not for the clients: one that
is still in `nv_threadpool_add` when the pool is freed works on memory that may
hold anything.
-/

namespace Libnv.ThreadPool

open Transition CircularQueue

universe u

variable {Tid : Type u} {n : Nat}

/-- How often the task with a number has been run to its end. -/
def executedCount (executed : List (Nat × Task)) (i : Nat) : Nat :=
  (executed.map Prod.fst).count i

/-- What is expected of the pool in every state. -/
structure TasksOnce (s : PoolSystem Tid n) : Prop where
  /-- The queue spells the accepted tasks that have not been dequeued. -/
  queue : s.freed = false →
    Holds s.tp.queue s.tp.queueCapacity s.tp.head s.tp.tail s.tp.count (s.accepted.drop s.taken)
  late : ∀ r ∈ s.returns, r.rc = .ok → r.late = false
  executed : ∀ p ∈ s.executed, s.accepted[p.1]? = some p.2
  atMostOnce : ∀ i, executedCount s.executed i ≤ 1
  graceful : s.destroy = .returned → s.mode = some .graceful →
    ∀ i < s.accepted.length, executedCount s.executed i = 1

def ClientPc.adding : ClientPc → Bool
  | .add .. => true
  | .idle | .waitIdle _ => false

def ClientCall.adds : ClientCall → Bool
  | .add _ | .addTimeout _ _ => true
  | .waitIdle => false

/-- No client is adding a task when the pool is freed, and none does so afterwards. -/
def TeardownAlone (s : PoolSystem Tid n) : PoolAction Tid n → Prop
  | .call _ call => call.adds = true → s.freed = false
  | .destroy => s.destroy = .teardown → ∀ t, (s.clients t).adding = false
  | .client _ | .timeout _ | .worker _ | .callDestroy _ => True

instance [Fintype Tid] (s : PoolSystem Tid n) : ∀ a, Decidable (TeardownAlone s a)
  | .call _ call => inferInstanceAs (Decidable (call.adds = true → s.freed = false))
  | .destroy =>
      inferInstanceAs (Decidable (s.destroy = .teardown → ∀ t, (s.clients t).adding = false))
  | .client _ | .timeout _ | .worker _ | .callDestroy _ => inferInstanceAs (Decidable True)

def WorkerPc.runs (i : Nat) : WorkerPc → Nat
  | .running index _ => if index = i then 1 else 0
  | .top | .exited => 0

@[simp] theorem WorkerPc.runs_running (i index : Nat) (task : Task) :
    (WorkerPc.running index task).runs i = if index = i then 1 else 0 := rfl

@[simp] theorem WorkerPc.runs_top (i : Nat) : WorkerPc.top.runs i = 0 := rfl

@[simp] theorem WorkerPc.runs_exited (i : Nat) : WorkerPc.exited.runs i = 0 := rfl

/-- Every dequeued task is run by one worker or has been run once. -/
structure TaskInv (accepted : List Task) (taken : Nat) (workers : Fin n → WorkerPc)
    (executed : List (Nat × Task)) : Prop where
  taken_le : taken ≤ accepted.length
  running : ∀ w i task, workers w = .running i task → accepted[i]? = some task
  done : ∀ p ∈ executed, accepted[p.1]? = some p.2
  tally : ∀ i, executedCount executed i + (∑ w, (workers w).runs i) = if i < taken then 1 else 0

/-- How many threads have been joined. -/
def DestroyPc.joined (n : Nat) : DestroyPc → Nat
  | .notCalled | .setShutdown _ => 0
  | .join i => i
  | .teardown | .returned => n

/-- Why workers leave, and who has left. -/
structure StopInv (tp : Pool) (workers : Fin n → WorkerPc) (destroy : DestroyPc)
    (mode : Option ShutdownMode) : Prop where
  threads : tp.threadCount = n
  shutdown : tp.shutdown = destroy.begun
  called : ∀ m, destroy = .setShutdown m → mode = some m
  mode : destroy.begun = true → mode = some tp.shutdownMode
  exited : ∀ w, workers w = .exited →
    tp.shutdown = true ∧ (tp.shutdownMode = .immediate ∨ tp.count = 0)
  joined : ∀ w : Fin n, w.val < destroy.joined n → workers w = .exited

/-- While the pool exists. -/
structure LiveInv (s : PoolSystem Tid n) : Prop where
  queue : Holds s.tp.queue s.tp.queueCapacity s.tp.head s.tp.tail s.tp.count
    (s.accepted.drop s.taken)
  stop : StopInv s.tp s.workers s.destroy s.mode
  running : s.destroy ≠ .returned

/-- Once the pool has been freed. -/
structure FreedInv (s : PoolSystem Tid n) : Prop where
  returned : s.destroy = .returned
  workers : ∀ w, s.workers w = .exited
  clients : ∀ t, (s.clients t).adding = false
  graceful : s.mode = some .graceful → s.taken = s.accepted.length

/-- What every step keeps that frees the pool alone. -/
structure PoolInv (s : PoolSystem Tid n) : Prop where
  positive : 0 < n
  tasks : TaskInv s.accepted s.taken s.workers s.executed
  late : ∀ r ∈ s.returns, r.rc = .ok → r.late = false
  live : s.freed = false → LiveInv s
  dead : s.freed = true → FreedInv s

theorem sum_runs_exited {workers : Fin n → WorkerPc} (h : ∀ w, workers w = .exited) (i : Nat) :
    (∑ w, (workers w).runs i) = 0 :=
  Finset.sum_eq_zero fun w _ => by simp [h w]

theorem PoolInv.tasksOnce {s : PoolSystem Tid n} (h : PoolInv s) : TasksOnce s where
  queue hlive := (h.live hlive).queue
  late := h.late
  executed := h.tasks.done
  atMostOnce i := by
    have htally := h.tasks.tally i
    split at htally <;> omega
  graceful hreturned hmode i hi := by
    have hfreed : s.freed = true := by
      by_contra hlive
      exact (h.live (Bool.eq_false_iff.mpr hlive)).running hreturned
    obtain ⟨-, hworkers, -, hgraceful⟩ := h.dead hfreed
    have htally := h.tasks.tally i
    rw [sum_runs_exited hworkers, hgraceful hmode, if_pos hi] at htally
    exact htally

section Sections

variable (tp : Pool) (task : Task)

/-- The pool with a task put in. -/
def Pool.pushed : Pool :=
  { tp with
    queue := Function.update tp.queue tp.tail task
    tail := (tp.tail + 1) % tp.queueCapacity
    count := tp.count + 1 }

def Pool.popped : Pool :=
  { tp with
    head := (tp.head + 1) % tp.queueCapacity
    count := tp.count - 1 }

/-- A client waits, is turned away, or puts its task in. -/
theorem addSection_cases :
    addSection tp task = (tp, none) ∨
      addSection tp task = (tp, some .eshutdown) ∨
      tp.shutdown = false ∧ tp.count ≠ tp.queueCapacity ∧
        addSection tp task = (tp.pushed task, some .ok) := by
  unfold addSection nvTpEnqueue
  by_cases hwait : tp.shutdown = false ∧ tp.count = tp.queueCapacity
  · exact Or.inl (if_pos hwait)
  · rw [if_neg hwait]
    by_cases hshut : tp.shutdown = true
    · exact Or.inr (Or.inl (if_pos hshut))
    · have hfull : tp.count ≠ tp.queueCapacity := by
        intro hfull
        exact hwait ⟨Bool.eq_false_iff.mpr hshut, hfull⟩
      refine Or.inr (Or.inr ⟨Bool.eq_false_iff.mpr hshut, hfull, ?_⟩)
      rw [if_neg hshut, if_neg hfull]
      rfl

theorem workerSection_cases :
    workerSection tp = (tp, .wait) ∨
      tp.shutdown = true ∧ (tp.shutdownMode = .immediate ∨ tp.count = 0) ∧
        workerSection tp = (tp, .exit) ∨
      tp.count ≠ 0 ∧ workerSection tp = (tp.popped, .run (tp.queue tp.head)) := by
  unfold workerSection nvTpDequeue
  by_cases hwait : tp.count = 0 ∧ tp.shutdown = false
  · exact Or.inl (if_pos hwait)
  · rw [if_neg hwait]
    by_cases hexit : tp.shutdown = true ∧ (tp.shutdownMode = .immediate ∨ tp.count = 0)
    · exact Or.inr (Or.inl ⟨hexit.1, hexit.2, if_pos hexit⟩)
    · have hcount : tp.count ≠ 0 := by
        intro hzero
        cases hshut : tp.shutdown with
        | false => exact hwait ⟨hzero, hshut⟩
        | true => exact hexit ⟨hshut, Or.inr hzero⟩
      refine Or.inr (Or.inr ⟨hcount, ?_⟩)
      rw [if_neg hexit, if_neg hcount]
      rfl

end Sections

section Tasks

variable {accepted : List Task} {taken : Nat} {workers : Fin n → WorkerPc}
variable {executed : List (Nat × Task)}

theorem getElem?_append_of_some {i : Nat} {task : Task} (h : accepted[i]? = some task)
    (more : List Task) : (accepted ++ more)[i]? = some task := by
  rw [List.getElem?_append_left (List.getElem?_eq_some_iff.mp h).1, h]

variable (h : TaskInv accepted taken workers executed)
include h

theorem TaskInv.accept (task : Task) : TaskInv (accepted ++ [task]) taken workers executed where
  taken_le := by
    have := h.taken_le
    simp only [List.length_append, List.length_singleton]
    omega
  running w i task' hw := getElem?_append_of_some (h.running w i task' hw) _
  done p hp := getElem?_append_of_some (h.done p hp) _
  tally := h.tally

theorem TaskInv.worker_moves {taken' : Nat} {executed' : List (Nat × Task)} {pc : WorkerPc}
    (w : Fin n) (htaken : taken' ≤ accepted.length)
    (hrunning : ∀ i task, pc = .running i task → accepted[i]? = some task)
    (hdone : ∀ p ∈ executed', accepted[p.1]? = some p.2)
    (hbalance : ∀ i, executedCount executed' i + pc.runs i + (if i < taken then 1 else 0) =
      executedCount executed i + (workers w).runs i + (if i < taken' then 1 else 0)) :
    TaskInv accepted taken' (Function.update workers w pc) executed' where
  taken_le := htaken
  running v i task hv := by
    rcases eq_or_ne v w with rfl | hne
    · rw [Function.update_self] at hv
      exact hrunning i task hv
    · rw [Function.update_of_ne hne] at hv
      exact h.running v i task hv
  done := hdone
  tally i := by
    have htally := h.tally i
    have hsum := Tally.sum_update_add (WorkerPc.runs i) workers w pc
    have := hbalance i
    omega

theorem TaskInv.take {w : Fin n} {task : Task}
    (hw : workers w = .top) (htask : accepted[taken]? = some task) :
    TaskInv accepted (taken + 1) (Function.update workers w (.running taken task)) executed := by
  refine h.worker_moves w (List.getElem?_eq_some_iff.mp htask).1 ?_ h.done fun i => ?_
  · intro i task' hpc
    cases hpc
    exact htask
  · simp only [hw, WorkerPc.runs_running, WorkerPc.runs_top]
    split_ifs <;> omega

theorem TaskInv.finish {w : Fin n} {index : Nat} {task : Task}
    (hw : workers w = .running index task) :
    TaskInv accepted taken (Function.update workers w .top) (executed ++ [(index, task)]) := by
  refine h.worker_moves w h.taken_le (by simp) ?_ fun i => ?_
  · intro p hp
    rcases List.mem_append.mp hp with hp | hp
    · exact h.done p hp
    · rw [List.mem_singleton.mp hp]
      exact h.running w index task hw
  · have hcount : executedCount (executed ++ [(index, task)]) i =
        executedCount executed i + if index = i then 1 else 0 := by
      simp [executedCount, List.count_singleton]
    simp only [hw, hcount, WorkerPc.runs_running, WorkerPc.runs_top]
    omega

/-- A worker leaves. -/
theorem TaskInv.exit {w : Fin n} (hw : workers w = .top) :
    TaskInv accepted taken (Function.update workers w .exited) executed := by
  refine h.worker_moves w h.taken_le (by simp) h.done fun i => ?_
  simp only [hw, WorkerPc.runs_top, WorkerPc.runs_exited]

end Tasks

theorem Holds.next {tp : Pool} {accepted : List Task} {taken : Nat}
    (h : Holds tp.queue tp.queueCapacity tp.head tp.tail tp.count (accepted.drop taken))
    (hcount : tp.count ≠ 0) :
    accepted[taken]? = some (tp.queue tp.head) ∧
      Holds tp.queue tp.queueCapacity tp.popped.head tp.tail tp.popped.count
        (accepted.drop (taken + 1)) := by
  have hlt : taken < accepted.length := by
    have hlen := h.length
    rw [List.length_drop] at hlen
    omega
  rw [List.drop_eq_getElem_cons hlt] at h
  obtain ⟨hhead, hrest⟩ := h.pop
  refine ⟨?_, hrest⟩
  rw [hhead]
  exact List.getElem?_eq_getElem hlt

/-- A task that is put in is the last of those that have not been dequeued. -/
theorem Holds.accept {tp : Pool} {accepted : List Task} {taken : Nat}
    (h : Holds tp.queue tp.queueCapacity tp.head tp.tail tp.count (accepted.drop taken))
    (htaken : taken ≤ accepted.length) (hroom : tp.count ≠ tp.queueCapacity) (task : Task) :
    Holds (tp.pushed task).queue tp.queueCapacity tp.head (tp.pushed task).tail
      (tp.pushed task).count ((accepted ++ [task]).drop taken) := by
  rw [List.drop_append_of_le_length htaken]
  exact h.push hroom task

section Steps

variable [DecidableEq Tid] {s : PoolSystem Tid n} {destroy : DestroyPc} {mode : Option ShutdownMode}

section Clients

variable (h : PoolInv s)
include h

theorem PoolInv.client_moves (t : Tid) {pc : ClientPc}
    (hpc : s.freed = true → pc.adding = false) {returns : List (AddReturn Tid)}
    (hlate : ∀ r ∈ returns, r.rc = .ok → r.late = false) :
    PoolInv { s with clients := Function.update s.clients t pc, returns := returns } where
  positive := h.positive
  tasks := h.tasks
  late := hlate
  live hlive := ⟨(h.live hlive).queue, (h.live hlive).stop, (h.live hlive).running⟩
  dead hdead := by
    obtain ⟨hreturned, hworkers, hclients, hgraceful⟩ := h.dead hdead
    refine ⟨hreturned, hworkers, fun t' => ?_, hgraceful⟩
    dsimp only
    rcases eq_or_ne t' t with rfl | hne
    · rw [Function.update_self]
      exact hpc hdead
    · rw [Function.update_of_ne hne]
      exact hclients t'

/-- A call that adds a task returns something else than `NV_TP_OK`. -/
theorem PoolInv.refused (t : Tid) {rc : TpRc} (hrc : rc ≠ .ok) : PoolInv (addReturns s t rc) := by
  refine h.client_moves t (fun _ => rfl) ?_
  intro r hr hok
  rcases List.mem_append.mp hr with hr | hr
  · exact h.late r hr hok
  · rw [List.mem_singleton.mp hr] at hok
    exact absurd hok hrc

theorem PoolInv.callAdd (hlive : s.freed = false) (t : Tid) (task : Task)
    (timed : Bool) : PoolInv (callAdd s t task timed) := by
  unfold ThreadPool.callAdd
  split
  · exact h.refused t (by decide)
  · exact h.client_moves t (fun hdead => by rw [hlive] at hdead; cases hdead) h.late

theorem PoolInv.callStep (t : Tid) (call : ClientCall)
    (hlive : call.adds = true → s.freed = false) : PoolInv (callStep s t call) := by
  unfold ThreadPool.callStep
  split
  · cases call with
    | add task => exact h.callAdd (hlive rfl) t task false
    | addTimeout task timed => exact h.callAdd (hlive rfl) t task timed
    | waitIdle => exact h.client_moves t (fun _ => rfl) h.late
  · exact h

theorem PoolInv.accepts (hlive : s.freed = false) (hshut : s.tp.shutdown = false)
    (hroom : s.tp.count ≠ s.tp.queueCapacity) (t : Tid) (task : Task) :
    PoolInv (addReturns
      { s with tp := s.tp.pushed task, accepted := s.accepted ++ [task] } t .ok) := by
  have hlive' := h.live hlive
  have hstop := hlive'.stop
  have hbegun : s.destroy.begun = false := hstop.shutdown.symm.trans hshut
  refine ⟨h.positive, h.tasks.accept task, ?_, fun _ => ⟨?_, ?_, hlive'.running⟩, ?_⟩
  · intro r hr hok
    rcases List.mem_append.mp hr with hr | hr
    · exact h.late r hr hok
    · rw [List.mem_singleton.mp hr]
      exact hbegun
  · exact Holds.accept hlive'.queue h.tasks.taken_le hroom task
  · refine ⟨hstop.threads, hstop.shutdown, hstop.called, hstop.mode, ?_, hstop.joined⟩
    intro w hw
    have hset := (hstop.exited w hw).1
    rw [hshut] at hset
    cases hset
  · intro hdead
    have hdead' : s.freed = true := hdead
    rw [hlive] at hdead'
    cases hdead'

theorem PoolInv.clientStep (t : Tid) : PoolInv (clientStep s t) := by
  unfold ThreadPool.clientStep
  cases hpc : s.clients t with
  | idle => exact h
  | waitIdle before =>
      dsimp only
      split
      · exact h
      · exact h.client_moves t (fun _ => rfl) h.late
  | add task timed waiting =>
      have hlive : s.freed = false := by
        by_contra hdead
        have hno := (h.dead (Bool.not_eq_false _ ▸ hdead)).clients t
        rw [hpc] at hno
        cases hno
      have hnot : s.freed ≠ true := by simp [hlive]
      dsimp only
      rcases addSection_cases s.tp task with hsec | hsec | ⟨hshut, hroom, hsec⟩
      · rw [hsec]
        exact h.client_moves t (fun hdead => absurd hdead hnot) h.late
      · rw [hsec]
        exact h.refused t (by decide)
      · rw [hsec]
        exact h.accepts hlive hshut hroom t task

theorem PoolInv.timeoutStep (t : Tid) : PoolInv (timeoutStep s t) := by
  unfold ThreadPool.timeoutStep
  split
  · exact h.refused t (by decide)
  · exact h

end Clients

/-- Nothing in the pool lies behind a worker that has left, and it has left for good. -/
theorem StopInv.worker_moves {tp tp' : Pool} {workers : Fin n → WorkerPc}
    {w : Fin n} {pc : WorkerPc} (h : StopInv tp workers destroy mode)
    (hw : workers w ≠ .exited) (hthreads : tp'.threadCount = tp.threadCount)
    (hshut : tp'.shutdown = tp.shutdown) (hmode : tp'.shutdownMode = tp.shutdownMode)
    (hcount : tp'.count ≤ tp.count)
    (hpc : pc = .exited → tp.shutdown = true ∧ (tp.shutdownMode = .immediate ∨ tp.count = 0)) :
    StopInv tp' (Function.update workers w pc) destroy mode where
  threads := hthreads.trans h.threads
  shutdown := hshut.trans h.shutdown
  called := h.called
  mode := hmode ▸ h.mode
  exited v hv := by
    have hleft : tp.shutdown = true ∧ (tp.shutdownMode = .immediate ∨ tp.count = 0) := by
      rcases eq_or_ne v w with rfl | hne
      · rw [Function.update_self] at hv
        exact hpc hv
      · rw [Function.update_of_ne hne] at hv
        exact h.exited v hv
    rw [hshut, hmode]
    exact ⟨hleft.1, hleft.2.imp id fun hzero => by omega⟩
  joined v hv := by
    have hv' := h.joined v hv
    have hne : v ≠ w := by
      rintro rfl
      exact hw hv'
    rw [Function.update_of_ne hne]
    exact hv'

omit [DecidableEq Tid] in
theorem PoolInv.workerStep (h : PoolInv s) (w : Fin n) : PoolInv (workerStep s w) := by
  have hlive (hw : s.workers w ≠ .exited) : s.freed = false := by
    by_contra hdead
    exact hw ((h.dead (Bool.not_eq_false _ ▸ hdead)).workers w)
  have hnot (hw : s.workers w ≠ .exited) : s.freed ≠ true := by simp [hlive hw]
  unfold ThreadPool.workerStep
  cases hpc : s.workers w with
  | exited => exact h
  | running index task =>
      have hw : s.workers w ≠ .exited := by simp [hpc]
      have hinv := h.live (hlive hw)
      refine ⟨h.positive, h.tasks.finish hpc, h.late, fun _ => ⟨hinv.queue, ?_, hinv.running⟩,
        fun hdead => absurd hdead (hnot hw)⟩
      exact hinv.stop.worker_moves hw rfl rfl rfl (Nat.le_refl _) (by simp)
  | top =>
      have hw : s.workers w ≠ .exited := by simp [hpc]
      have hinv := h.live (hlive hw)
      dsimp only
      rcases workerSection_cases s.tp with hsec | ⟨hshut, hleave, hsec⟩ | ⟨hcount, hsec⟩
      · rw [hsec]
        exact h
      · rw [hsec]
        refine ⟨h.positive, h.tasks.exit hpc, h.late, fun _ => ⟨hinv.queue, ?_, hinv.running⟩,
          fun hdead => absurd hdead (hnot hw)⟩
        exact hinv.stop.worker_moves hw rfl rfl rfl (Nat.le_refl _) fun _ => ⟨hshut, hleave⟩
      · rw [hsec]
        obtain ⟨hnext, hqueue⟩ := Holds.next hinv.queue hcount
        refine ⟨h.positive, h.tasks.take hpc hnext, h.late, fun _ => ⟨hqueue, ?_, hinv.running⟩,
          fun hdead => absurd hdead (hnot hw)⟩
        exact hinv.stop.worker_moves hw rfl rfl rfl (Nat.sub_le _ _) (by simp)

omit [DecidableEq Tid] in
/-- A pool that `nv_threadpool_destroy` is still working on exists. -/
theorem PoolInv.live_of_not_returned (h : PoolInv s) (hdestroy : s.destroy ≠ .returned) :
    s.freed = false := by
  by_contra hdead
  exact hdestroy (h.dead (Bool.not_eq_false _ ▸ hdead)).returned

omit [DecidableEq Tid] in
theorem PoolInv.destroy_moves (h : PoolInv s) {tp : Pool} (hlive : s.freed = false)
    (hqueue : Holds tp.queue tp.queueCapacity tp.head tp.tail tp.count
      (s.accepted.drop s.taken))
    (hstop : StopInv tp s.workers destroy mode)
    (hrunning : destroy ≠ .returned) :
    PoolInv { s with tp := tp, destroy := destroy, mode := mode } where
  positive := h.positive
  tasks := h.tasks
  late := h.late
  live _ := ⟨hqueue, hstop, hrunning⟩
  dead hdead := by
    have hdead' : s.freed = true := hdead
    rw [hlive] at hdead'
    cases hdead'

omit [DecidableEq Tid] in
theorem PoolInv.callDestroy (h : PoolInv s) (mode : ShutdownMode)
    (hdestroy : s.destroy = .notCalled) :
    PoolInv { s with destroy := .setShutdown mode, mode := some mode } := by
  have hlive := h.live_of_not_returned (by simp [hdestroy])
  obtain ⟨hqueue, hstop, -⟩ := h.live hlive
  have hshut : s.tp.shutdown = false := by rw [hstop.shutdown, hdestroy]; rfl
  refine h.destroy_moves hlive hqueue ⟨hstop.threads, hshut, ?_, ?_, hstop.exited, ?_⟩ (by simp)
  · intro m hm
    cases hm
    rfl
  · intro hbegun
    cases hbegun
  · intro w hw
    exact absurd hw (Nat.not_lt_zero _)

theorem StopInv.setShutdown {tp : Pool} {workers : Fin n → WorkerPc}
    {m : ShutdownMode} (h : StopInv tp workers (.setShutdown m) mode) :
    StopInv (destroySection tp m) workers (.join 0) mode where
  threads := h.threads
  shutdown := rfl
  called _ hm := by cases hm
  mode _ := h.called m rfl
  exited w hw := by
    have hset := (h.exited w hw).1
    rw [h.shutdown] at hset
    cases hset
  joined w hw := absurd hw (Nat.not_lt_zero _)

theorem StopInv.join {tp : Pool} {workers : Fin n → WorkerPc} {i : Nat}
    (h : StopInv tp workers (.join i) mode) (hbegun : destroy.begun = true)
    (hjoined : ∀ w : Fin n, w.val < destroy.joined n → w.val < i ∨ workers w = .exited) :
    StopInv tp workers destroy mode where
  threads := h.threads
  shutdown := h.shutdown.trans hbegun.symm
  called m hm := by
    rw [hm] at hbegun
    cases hbegun
  mode _ := h.mode rfl
  exited := h.exited
  joined w hw := (hjoined w hw).elim (h.joined w) id

omit [DecidableEq Tid] in
/-- With the workers gone the pool is freed; a graceful end leaves no task behind. -/
theorem PoolInv.teardown (h : PoolInv s) (reuse : Pool → Pool) (hdestroy : s.destroy = .teardown)
    (hclients : ∀ t, (s.clients t).adding = false) :
    PoolInv { s with tp := reuse s.tp, freed := true, destroy := .returned } := by
  have hlive := h.live_of_not_returned (by simp [hdestroy])
  obtain ⟨hqueue, hstop, -⟩ := h.live hlive
  have hworkers : ∀ w, s.workers w = .exited := by
    intro w
    refine hstop.joined w ?_
    rw [hdestroy]
    exact w.isLt
  refine ⟨h.positive, h.tasks, h.late, (fun hno => by cases hno),
    fun _ => ⟨rfl, hworkers, hclients, fun hgraceful => ?_⟩⟩
  have hmode : s.mode = some s.tp.shutdownMode := hstop.mode (by rw [hdestroy]; rfl)
  have hcount : s.tp.count = 0 := by
    rcases (hstop.exited ⟨0, h.positive⟩ (hworkers _)).2 with himm | hzero
    · have hboth := hmode.symm.trans hgraceful
      rw [himm] at hboth
      cases hboth
    · exact hzero
  have hlen := hqueue.length
  rw [List.length_drop, hcount] at hlen
  have := h.tasks.taken_le
  dsimp only
  omega

omit [DecidableEq Tid] in
theorem PoolInv.destroyStep (h : PoolInv s) (reuse : Pool → Pool)
    (hclients : s.destroy = .teardown → ∀ t, (s.clients t).adding = false) :
    PoolInv (destroyStep reuse s) := by
  unfold ThreadPool.destroyStep
  cases hpc : s.destroy with
  | notCalled => exact h
  | setShutdown mode =>
      have hlive := h.live_of_not_returned (by simp [hpc])
      obtain ⟨hqueue, hstop, -⟩ := h.live hlive
      rw [hpc] at hstop
      exact h.destroy_moves hlive hqueue hstop.setShutdown (by simp)
  | join i =>
      have hlive := h.live_of_not_returned (by simp [hpc])
      obtain ⟨hqueue, hstop, -⟩ := h.live hlive
      rw [hpc] at hstop
      dsimp only
      split_ifs with hlast hexited
      · refine h.destroy_moves hlive hqueue (hstop.join rfl fun w hw => ?_) (by simp)
        rcases Nat.lt_or_eq_of_le (Nat.le_of_lt_succ hw) with hlt | heq
        · exact Or.inl hlt
        · refine Or.inr ?_
          rw [threadExited, ← heq, dif_pos w.isLt] at hexited
          exact of_decide_eq_true hexited
      · exact h
      · refine h.destroy_moves hlive hqueue (hstop.join rfl fun w _ => ?_) (by simp)
        rw [hstop.threads] at hlast
        exact Or.inl (Nat.lt_of_lt_of_le w.isLt (Nat.not_lt.mp hlast))
  | teardown => exact h.teardown reuse hpc (hclients hpc)
  | returned => exact h

theorem PoolInv.step (h : PoolInv s) (reuse : Pool → Pool) (a : PoolAction Tid n)
    (halone : TeardownAlone s a) : PoolInv (poolStep reuse s a) := by
  cases a with
  | call t call => exact h.callStep t call halone
  | client t => exact h.clientStep t
  | timeout t => exact h.timeoutStep t
  | worker w => exact h.workerStep w
  | callDestroy mode =>
      simp only [poolStep]
      split
      case isTrue hdestroy => exact h.callDestroy mode hdestroy
      case isFalse => exact h
  | destroy => exact h.destroyStep reuse halone

end Steps

theorem poolInv_init {threadCount queueCapacity : Int} {queue : Nat → Task} {tp : Pool}
    (h : nvThreadpoolCreate threadCount queueCapacity queue = some tp) :
    PoolInv (poolInit tp : PoolSystem Tid tp.threadCount) := by
  unfold nvThreadpoolCreate at h
  split at h
  case isTrue => cases h
  case isFalse hpos =>
    cases h
    have hthreads : 0 < threadCount.toNat := by omega
    have hcapacity : 0 < queueCapacity.toNat := by omega
    refine ⟨hthreads, ⟨Nat.zero_le _, ?_, ?_, ?_⟩, ?_, fun _ => ⟨?_, ?_, ?_⟩, ?_⟩
    · intro w i task hw
      cases hw
    · intro p hp
      cases hp
    · intro i
      simp [poolInit, executedCount]
    · intro r hr
      cases hr
    · exact Holds.empty _ hcapacity
    · refine ⟨rfl, rfl, ?_, ?_, ?_, ?_⟩
      · intro m hm
        cases hm
      · intro hbegun
        cases hbegun
      · intro w hw
        cases hw
      · intro w hw
        exact absurd hw (Nat.not_lt_zero _)
    · simp [poolInit]
    · intro hdead
      cases hdead

/--
In every run in which the pool is freed while no client is adding a task, and
none adds one afterwards, each accepted task runs once and in order.
-/
theorem nvThreadpool_tasks_once
    [DecidableEq Tid]
    (reuse : Pool → Pool)
    (threadCount queueCapacity : Int)
    (queue : Nat → Task)
    (tp : Pool)
    (hcreate : nvThreadpoolCreate threadCount queueCapacity queue = some tp)
    (as : List (PoolAction Tid tp.threadCount))
    (halone : Along (poolStep reuse) TeardownAlone (poolInit tp) as) :
    TasksOnce (run (poolStep reuse) (poolInit tp) as) := by
  have hinv : PoolInv (run (poolStep reuse) (poolInit tp) as) :=
    @run_invariant_of_along _ _ _ PoolInv _ _ _ (fun _ a h ha => PoolInv.step h reuse a ha)
      (poolInv_init hcreate) halone
  exact hinv.tasksOnce

/-- One thread and a queue of one task. -/
abbrev smallPool : Pool where
  threadCount := 1
  queueCapacity := 1
  queue := fun _ => ⟨0, 0⟩
  head := 0
  tail := 0
  count := 0
  shutdown := false
  shutdownMode := .graceful

/-- Two tasks are accepted; a third call waits for the queue, which is full. -/
def fillSmallPool : List (PoolAction Unit 1) :=
  [.call () (.add ⟨1, 10⟩), .client (), .worker 0, .call () (.add ⟨1, 11⟩), .client (),
    .call () (.add ⟨1, 12⟩), .client ()]

/-- A graceful end, after the waiting client has been served or turned away. -/
def endGracefully : List (PoolAction Unit 1) :=
  [.worker 0, .callDestroy .graceful, .destroy, .client (), .worker 0, .worker 0, .worker 0,
    .destroy, .destroy, .destroy]

/-- Both accepted tasks have run when the pool is gone. -/
theorem small_pool_tasks_once :
    TasksOnce (run (poolStep id) (poolInit smallPool) (fillSmallPool ++ endGracefully)) ∧
      (run (poolStep id) (poolInit smallPool) (fillSmallPool ++ endGracefully)).executed =
        [(0, ⟨1, 10⟩), (1, ⟨1, 11⟩)] :=
  ⟨nvThreadpool_tasks_once id 1 1 (fun _ => ⟨0, 0⟩) smallPool rfl _ (by decide +kernel),
    by decide +kernel⟩

/-- An immediate end while the client waits, which then finds the freed pool. -/
def endImmediately : List (PoolAction Unit 1) :=
  [.callDestroy .immediate, .destroy, .worker 0, .worker 0, .destroy, .destroy, .destroy,
    .client ()]

def clearedPool (tp : Pool) : Pool :=
  { tp with shutdown := false, count := 0 }

/-- The call returns `NV_TP_OK` although `shutdown` was set long before. -/
theorem freed_pool_accepts_task :
    ⟨(), .ok, true⟩ ∈ (run (poolStep clearedPool) (poolInit smallPool)
        (fillSmallPool ++ endImmediately)).returns ∧
      ¬TasksOnce (run (poolStep clearedPool) (poolInit smallPool)
        (fillSmallPool ++ endImmediately)) := by
  have hlate : ⟨(), .ok, true⟩ ∈ (run (poolStep clearedPool) (poolInit smallPool)
      (fillSmallPool ++ endImmediately)).returns := by
    decide +kernel
  refine ⟨hlate, fun h => ?_⟩
  cases h.late _ hlate rfl

end Libnv.ThreadPool
