import Libnv.Log.Ring

/-!
# The log thread and `nv_log_close`

The consumer of the ring is the thread `nv_log_thread_main`.  It calls
`nv_log_ring_pop` at four places:

* at the top of its loop (`main`), writing what it pops;
* with `wait_mutex` held (`locked`), where a popped message is overwritten by
  the next pop without being written;
* after the wait (`afterWait`), writing what it pops;
* in the final loop once `stop` has been seen (`drain`), until a pop fails.

`nv_log_close` sets `stop`, broadcasts, joins the thread and frees the ring.
Every atomic operation is a step.  The signal of a producer and the broadcast
are whole mutex sections; the section of the log thread is held over several
steps, so that the runs in which it is one step are among those considered.

The fields `accepted`, `written`, `ignored` and `gaveUp` are history: no step
reads them.
-/

namespace Libnv.Log

universe u

/-- The calls of `nv_log_ring_pop` in `nv_log_thread_main`. -/
inductive PopSite where
  | main
  | locked
  | afterWait
  | drain
deriving DecidableEq

/-- Program points of `nv_log_thread_main`. -/
inductive ThreadPc where
  | pop (site : PopSite)
  | write (site : PopSite)
  | checkStop (site : PopSite)
  | lock
  | waiting
  | woken
  | unlock
  | exited
deriving DecidableEq

/-- Program points of `nv_log_close`, which runs `nv_log_ring_shutdown`. -/
inductive ClosePc where
  | notCalled
  | setStop
  | broadcast
  | join
  | teardown
  | clearReady
  | returned
deriving DecidableEq

/-- Producers, log thread and closing thread. -/
structure LogSystem (Tid : Type u) where
  core : RingState Tid
  thread : ThreadPc
  close : ClosePc
  stop : Bool
  /-- The log thread holds `wait_mutex`. -/
  locked : Bool
  /-- Positions whose push returned `0` before `nv_log_close` was called. -/
  accepted : List Nat
  /-- Positions and buffers handed to `nv_log_write_msg`. -/
  written : List (Nat × LogOut)
  /-- Positions popped with the mutex held. -/
  ignored : List Nat
  /-- The unpublished position at which the final loop ended. -/
  gaveUp : Option Nat

section Steps

variable {Tid : Type u} [DecidableEq Tid]

/-- `pthread_cond_signal` or `pthread_cond_broadcast`: the only waiter is woken. -/
def wake : ThreadPc → ThreadPc
  | .waiting => .woken
  | pc => pc

/--
A producer steps.  `nv_log_ring_signal_consumer` needs the mutex; the return of
`0` for a claimed position is recorded until `nv_log_close` is called.
-/
def producerStep (s : LogSystem Tid) (t : Tid) (spurious : Bool) : LogSystem Tid :=
  match s.core.push t with
  | .signal _ =>
      if s.locked then s
      else { s with
        core := pushStep s.core t spurious
        thread := wake s.thread }
  | .ret rc pos =>
      { s with
        core := pushStep s.core t spurious
        accepted :=
          if s.close = .notCalled ∧ rc = 0 then s.accepted ++ pos.toList
          else s.accepted }
  | _ => { s with core := pushStep s.core t spurious }

/-- Where `nv_log_thread_main` goes on after a pop has returned. -/
def afterPop : PopSite → Bool → ThreadPc
  | .main, true => .write .main
  | .main, false => .checkStop .main
  | .locked, true => .unlock
  | .locked, false => .checkStop .locked
  | .afterWait, true => .write .afterWait
  | .afterWait, false => .checkStop .afterWait
  | .drain, true => .write .drain
  | .drain, false => .exited

def afterWrite : PopSite → ThreadPc
  | .drain => .pop .drain
  | _ => .pop .main

/-- The position of the message in the thread's buffer. -/
def LogSystem.lastPopped (s : LogSystem Tid) : List Nat :=
  (s.core.delivered.getLast?.map Prod.fst).toList

/-- A step of `nv_log_thread_main` at a call of `nv_log_ring_pop`. -/
def popSiteStep (s : LogSystem Tid) (site : PopSite) : LogSystem Tid :=
  match s.core.pop with
  | .ret ok =>
      { s with
        core := popStep s.core
        thread := afterPop site ok
        ignored := if site = .locked ∧ ok then s.ignored ++ s.lastPopped else s.ignored }
  | .loadSeq pos =>
      { s with
        core := popStep s.core
        gaveUp :=
          if site = .drain ∧ (s.core.ring.slot pos).seq ≠ pos + 1 then some pos
          else s.gaveUp }
  | _ => { s with core := popStep s.core }

/-- The next step of `nv_log_thread_main`. -/
def threadStep (s : LogSystem Tid) : LogSystem Tid :=
  match s.thread with
  | .pop site => popSiteStep s site
  | .write site =>
      { s with
        thread := afterWrite site
        written := s.written ++ s.lastPopped.map fun pos => (pos, s.core.out) }
  | .checkStop .main =>
      if s.stop then { s with thread := .pop .drain } else { s with thread := .lock }
  | .checkStop .locked =>
      if s.stop then { s with thread := .unlock }
      else { s with thread := .waiting, locked := false }
  | .checkStop .afterWait =>
      if s.stop then { s with thread := .pop .drain }
      else { s with thread := .pop .main }
  | .checkStop .drain => s
  | .lock => { s with thread := .pop .locked, locked := true }
  | .waiting => s
  | .woken => { s with thread := .unlock, locked := true }
  | .unlock => { s with thread := .pop .afterWait, locked := false }
  | .exited => s

/-- `memset(r, 0, sizeof(*r))` after `free(r->slots)`. -/
def clearedRing : LogRing where
  slots := fun _ => { seq := 0, level := .debug, text := fun _ => 0 }
  capacity := 0
  mask := 0
  enqueuePos := 0
  dequeuePos := 0

/-- The call of `nv_log_close` and its next steps. -/
def closeStep (s : LogSystem Tid) : LogSystem Tid :=
  match s.close with
  | .notCalled => { s with close := .setStop }
  | .setStop => { s with close := .broadcast, stop := true }
  | .broadcast =>
      if s.locked then s else { s with close := .join, thread := wake s.thread }
  | .join => if s.thread = .exited then { s with close := .teardown } else s
  | .teardown =>
      -- a producer still inside `nv_log_ring_push` works on freed memory from here on
      { s with
        close := .clearReady
        stop := false
        core := { s.core with ring := clearedRing } }
  | .clearReady =>
      { s with close := .returned, core := { s.core with asyncReady := false } }
  | .returned => s

/-- Who moves next; `wakeup` is a spurious return of `pthread_cond_wait`. -/
inductive LogAction (Tid : Type u) where
  | call (t : Tid) (line : Option CString) (level : LogLevel)
  | push (t : Tid) (spurious : Bool)
  | thread
  | wakeup
  | close

def logStep (s : LogSystem Tid) : LogAction Tid → LogSystem Tid
  | .call t line level => { s with core := pushCall s.core t line level }
  | .push t spurious => producerStep s t spurious
  | .thread => threadStep s
  | .wakeup => { s with thread := wake s.thread }
  | .close => closeStep s

/-- The state after `nv_log_ring_init` under the default policy DROP. -/
def logInit (queueSize : Nat) : LogSystem Tid where
  core := ringInit queueSize .drop
  thread := .pop .main
  close := .notCalled
  stop := false
  locked := false
  accepted := []
  written := []
  ignored := []
  gaveUp := none

end Steps

end Libnv.Log
