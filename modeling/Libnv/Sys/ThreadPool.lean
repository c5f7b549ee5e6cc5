import Mathlib.Algebra.BigOperators.Fin
import Libnv.Lib.CircularQueue

/-!
# The thread pool

Clients put tasks into a circular queue, worker threads take them out and run
them, and `nv_threadpool_destroy` stops the workers and frees the pool.  Every
section under `tp->lock` is one step, from taking the lock to releasing it or to
`pthread_cond_wait`; running a task is a step of its own.

A thread that waits for a condition may look at the pool again at any time,
after a signal or without one, so the signals leave no trace here.  The pool
that `nv_threadpool_destroy` has freed holds what `reuse` gives; a client that
is still in a function works on that.

The fields `mode`, `accepted`, `taken`, `executed` and `returns` of the system
and the numbers of tasks in the program points are history: nothing that the
code does depends on them.
-/

namespace Libnv.ThreadPool

universe u

/-- The return codes. -/
inductive TpRc where
  | ok
  | einval
  | efull
  | eshutdown
  | etimedout
deriving DecidableEq

/-- `nv_tp_shutdown_mode_t`. -/
inductive ShutdownMode where
  | graceful
  | immediate
deriving DecidableEq

/-- `task_t`; the function `0` is `NULL`. -/
structure Task where
  function : Nat
  data : Nat
deriving DecidableEq

/-- `threadpool_t`, without the lock and the conditions. -/
structure Pool where
  threadCount : Nat
  queueCapacity : Nat
  queue : Nat → Task
  head : Nat
  tail : Nat
  count : Nat
  shutdown : Bool
  shutdownMode : ShutdownMode

def nvTpEnqueue (tp : Pool) (task : Task) : Pool × TpRc :=
  if tp.count = tp.queueCapacity then (tp, .efull)
  else
    ({ tp with
        queue := Function.update tp.queue tp.tail task
        tail := (tp.tail + 1) % tp.queueCapacity
        count := tp.count + 1 }, .ok)

/-- `none` is `NV_TP_EINVAL`. -/
def nvTpDequeue (tp : Pool) : Option (Pool × Task) :=
  if tp.count = 0 then none
  else
    some ({ tp with
        head := (tp.head + 1) % tp.queueCapacity
        count := tp.count - 1 }, tp.queue tp.head)

/-- `nv_threadpool_create`, with what `malloc` leaves in the queue; `none` is `NULL`. -/
def nvThreadpoolCreate (threadCount queueCapacity : Int) (queue : Nat → Task) : Option Pool :=
  if threadCount ≤ 0 ∨ queueCapacity ≤ 0 then none
  else
    some
      { threadCount := threadCount.toNat
        queueCapacity := queueCapacity.toNat
        queue := queue
        head := 0
        tail := 0
        count := 0
        shutdown := false
        shutdownMode := .graceful }

/-- The section of `nv_threadpool_add` and `nv_threadpool_add_timeout`; `none`: it waits. -/
def addSection (tp : Pool) (task : Task) : Pool × Option TpRc :=
  if tp.shutdown = false ∧ tp.count = tp.queueCapacity then (tp, none)
  else if tp.shutdown then (tp, some .eshutdown)
  else
    let (tp, rc) := nvTpEnqueue tp task
    (tp, some rc)

inductive WorkerNext where
  | wait
  | exit
  | run (task : Task)
  | again
deriving DecidableEq

/-- The section of `nv_threadpool_thread`. -/
def workerSection (tp : Pool) : Pool × WorkerNext :=
  if tp.count = 0 ∧ tp.shutdown = false then (tp, .wait)
  else if tp.shutdown ∧ (tp.shutdownMode = .immediate ∨ tp.count = 0) then (tp, .exit)
  else
    match nvTpDequeue tp with
    | some (tp, task) => (tp, .run task)
    | none => (tp, .again)

/-- The section of `nv_threadpool_destroy`. -/
def destroySection (tp : Pool) (mode : ShutdownMode) : Pool :=
  { tp with shutdown := true, shutdownMode := mode }

section System

inductive ClientPc where
  | idle
  /-- In `nv_threadpool_add` or, if `timed`, in `nv_threadpool_add_timeout` with a time. -/
  | add (task : Task) (timed : Bool) (waiting : Bool)
  /-- In `nv_threadpool_wait_idle`, called when `before` tasks had been accepted. -/
  | waitIdle (before : Nat)
deriving DecidableEq

/-- Where a worker is; `index` numbers the tasks as they were accepted. -/
inductive WorkerPc where
  | top
  | running (index : Nat) (task : Task)
  | exited
deriving DecidableEq

/-- Where `nv_threadpool_destroy` is; `join i` waits for thread `i`. -/
inductive DestroyPc where
  | notCalled
  | setShutdown (mode : ShutdownMode)
  | join (i : Nat)
  | teardown
  | returned
deriving DecidableEq

/-- `shutdown` has been set. -/
def DestroyPc.begun : DestroyPc → Bool
  | .notCalled | .setShutdown _ => false
  | .join _ | .teardown | .returned => true

/-- What a call that adds a task has returned, and whether `shutdown` had been set by then. -/
structure AddReturn (Tid : Type u) where
  client : Tid
  rc : TpRc
  late : Bool
deriving DecidableEq

/-- The pool with its clients, its `n` workers and the call of `nv_threadpool_destroy`. -/
structure PoolSystem (Tid : Type u) (n : Nat) where
  tp : Pool
  freed : Bool
  clients : Tid → ClientPc
  workers : Fin n → WorkerPc
  destroy : DestroyPc
  /-- The mode with which `nv_threadpool_destroy` was called. -/
  mode : Option ShutdownMode
  /-- The tasks whose call returned `NV_TP_OK`, in this order. -/
  accepted : List Task
  /-- How many tasks have been dequeued. -/
  taken : Nat
  /-- The tasks that have been run to their end, with their numbers. -/
  executed : List (Nat × Task)
  returns : List (AddReturn Tid)

/-- The functions that clients call; `timed` is `abstime != NULL`. -/
inductive ClientCall where
  | add (task : Task)
  | addTimeout (task : Task) (timed : Bool)
  | waitIdle
deriving DecidableEq

/-- Who moves next. -/
inductive PoolAction (Tid : Type u) (n : Nat) where
  | call (t : Tid) (call : ClientCall)
  | client (t : Tid)
  /-- `pthread_cond_timedwait` returns `ETIMEDOUT`. -/
  | timeout (t : Tid)
  | worker (w : Fin n)
  | callDestroy (mode : ShutdownMode)
  | destroy
deriving DecidableEq

variable {Tid : Type u} [DecidableEq Tid] {n : Nat}

def addReturns (s : PoolSystem Tid n) (t : Tid) (rc : TpRc) : PoolSystem Tid n :=
  { s with
    clients := Function.update s.clients t .idle
    returns := s.returns ++ [⟨t, rc, s.destroy.begun⟩] }

def callAdd (s : PoolSystem Tid n) (t : Tid) (task : Task) (timed : Bool) : PoolSystem Tid n :=
  if task.function = 0 then addReturns s t .einval
  else { s with clients := Function.update s.clients t (.add task timed false) }

def callStep (s : PoolSystem Tid n) (t : Tid) (call : ClientCall) : PoolSystem Tid n :=
  if s.clients t = .idle then
    match call with
    | .add task => callAdd s t task false
    | .addTimeout task timed => callAdd s t task timed
    | .waitIdle =>
        { s with clients := Function.update s.clients t (.waitIdle s.accepted.length) }
  else s

def clientStep (s : PoolSystem Tid n) (t : Tid) : PoolSystem Tid n :=
  match s.clients t with
  | .idle => s
  | .add task timed _ =>
      match addSection s.tp task with
      | (_, none) =>
          { s with clients := Function.update s.clients t (.add task timed true) }
      | (tp, some rc) =>
          addReturns
            { s with
              tp := tp
              accepted := if rc = .ok then s.accepted ++ [task] else s.accepted } t rc
  | .waitIdle _ =>
      if s.tp.count ≠ 0 then s
      else { s with clients := Function.update s.clients t .idle }

/-- The time of a waiting client is over. -/
def timeoutStep (s : PoolSystem Tid n) (t : Tid) : PoolSystem Tid n :=
  match s.clients t with
  | .add _ true true => addReturns s t .etimedout
  | _ => s

/-- A worker's section, or the end of the task that it runs. -/
def workerStep (s : PoolSystem Tid n) (w : Fin n) : PoolSystem Tid n :=
  match s.workers w with
  | .top =>
      match workerSection s.tp with
      | (_, .wait) | (_, .again) => s
      | (_, .exit) => { s with workers := Function.update s.workers w .exited }
      | (tp, .run task) =>
          { s with
            tp := tp
            workers := Function.update s.workers w (.running s.taken task)
            taken := s.taken + 1 }
  | .running index task =>
      { s with
        workers := Function.update s.workers w .top
        executed := s.executed ++ [(index, task)] }
  | .exited => s

/-- Thread `i` has ended. -/
def threadExited (workers : Fin n → WorkerPc) (i : Nat) : Bool :=
  if h : i < n then workers ⟨i, h⟩ = .exited else true

/-- The next step of `nv_threadpool_destroy`. -/
def destroyStep (reuse : Pool → Pool) (s : PoolSystem Tid n) : PoolSystem Tid n :=
  match s.destroy with
  | .notCalled => s
  | .setShutdown mode => { s with tp := destroySection s.tp mode, destroy := .join 0 }
  | .join i =>
      if i < s.tp.threadCount then
        if threadExited s.workers i then { s with destroy := .join (i + 1) } else s
      else { s with destroy := .teardown }
  | .teardown => { s with tp := reuse s.tp, freed := true, destroy := .returned }
  | .returned => s

def poolStep (reuse : Pool → Pool) (s : PoolSystem Tid n) : PoolAction Tid n → PoolSystem Tid n
  | .call t call => callStep s t call
  | .client t => clientStep s t
  | .timeout t => timeoutStep s t
  | .worker w => workerStep s w
  | .callDestroy mode =>
      if s.destroy = .notCalled then
        { s with destroy := .setShutdown mode, mode := some mode }
      else s
  | .destroy => destroyStep reuse s

/-- The system after `nv_threadpool_create`, with all worker threads created. -/
def poolInit (tp : Pool) : PoolSystem Tid tp.threadCount where
  tp := tp
  freed := false
  clients := fun _ => .idle
  workers := fun _ => .top
  destroy := .notCalled
  mode := none
  accepted := []
  taken := 0
  executed := []
  returns := []

end System

end Libnv.ThreadPool
