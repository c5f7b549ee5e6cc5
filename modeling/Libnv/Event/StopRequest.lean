import Mathlib.Logic.Function.Basic
import Libnv.Event.RunState

/-!
# Requests to stop the loop

`nv_loop_stop` and `nv_core_request_quit` may be called by hooks and handlers, on
the main thread, and by threads that plugins have started, while the main thread
goes through `nv_core_business_init`, `nv_core_run_loop` and `nv_loop_run`.

Every load and store of `loop->state` is a step of its own.  `nv_loop_stop` acts
only on a loop that it finds RUNNING, and `nv_loop_run` stores RUNNING whatever
happened before: a request made between the end of `nv_loop_init` and that store
is answered with success and has no effect.
-/

namespace Libnv.LoopRun

open Transition

universe u

section System

/-- Where the main thread stands. -/
inductive MainPoint where
  /-- `nv_core_business_init`, before `nv_loop_init` clears the loop. -/
  | clear
  /-- `nv_loop_init`, before its last store. -/
  | initState
  /-- The rest of `nv_core_business_init`. -/
  | business
  /-- `nv_core_run_loop`, before it calls `nv_loop_run`. -/
  | runLoop
  /-- `nv_loop_run`, before its first test. -/
  | enter
  /-- `nv_loop_run`, before it stores RUNNING. -/
  | store
  /-- `nv_loop_run`, in its loop. -/
  | loop (point : RunPoint)
  /-- Before `nv_core_business_cleanup`. -/
  | ended
  /-- After it. -/
  | cleaned
  /-- The idle handler has ended the process, since the shutdown took too long. -/
  | exited
deriving DecidableEq

/-- `nv_loop_init` has completed. -/
def MainPoint.initDone : MainPoint → Bool
  | .clear | .initState => false
  | _ => true

/-- RUNNING has been stored, or will not be stored any more. -/
def MainPoint.started : MainPoint → Bool
  | .loop _ | .ended | .cleaned | .exited => true
  | .clear | .initState | .business | .runLoop | .enter | .store => false

/-- The main thread is in a hook, in the initialisation of a module or in a handler. -/
def MainPoint.callsOut : MainPoint → Bool
  | .clear | .business | .runLoop | .loop .handlers => true
  | _ => false

/-- Where a call of `nv_loop_stop` or `nv_core_request_quit` stands. -/
inductive CallPoint where
  /-- There is no call. -/
  | idle
  /-- `nv_core_request_quit`, before it sets `ctx->quit`. -/
  | quit
  /-- `nv_loop_stop`, before it tests the state. -/
  | test
  /-- `nv_loop_stop`, before it stores STOPPING. -/
  | store
  /-- `nv_loop_stop`, before `nv_loop_wakeup`. -/
  | wakeup
  /-- Before the return; `early` when the test was made before `nv_loop_init` completed. -/
  | ret (early : Bool)
deriving DecidableEq

/--
The loop, the main thread, and the calls in progress: `none` is the call that the
main thread makes.  `stopped` says that a call has returned success after
`nv_loop_init` completed.
-/
structure StopSystem (Tid : Type u) where
  state : NvLoopState
  quit : Bool
  main : MainPoint
  calls : Option Tid → CallPoint
  stopped : Bool

/-- The main thread goes on, a thread makes a call, or its call goes on. -/
inductive StopAction (Tid : Type u) where
  | main (ok : Bool) (result : WaitResult)
  | call (t : Option Tid) (quit : Bool)
  | step (t : Option Tid)
deriving DecidableEq

variable {Tid : Type u} [DecidableEq Tid]

/-- The next step of `nv_loop_run` in its loop, with the idle handler's look at the time-out. -/
def loopStep (st : StopSystem Tid) (ok : Bool) (result : WaitResult) (point : RunPoint) :
    StopSystem Tid :=
  if point = .handlers ∧ st.quit = true ∧ ok = false then { st with main := .exited }
  else
    match nvLoopRunNext st.state result point with
    | some point => { st with main := .loop point }
    | none => { st with main := .ended }

/--
The next step of the main thread.  `ok` is the outcome of what it initialises; in
the idle handler it is false when the shutdown time-out has passed.
-/
def mainStep (st : StopSystem Tid) (ok : Bool) (result : WaitResult) : StopSystem Tid :=
  match st.main with
  | .clear => { st with state := .init, main := if ok then .initState else .ended }
  | .initState => { st with state := nvLoopInit st.state, main := .business }
  | .business => { st with main := if ok then .runLoop else .ended }
  | .runLoop => { st with main := .enter }
  | .enter => { st with main := if nvLoopRunEnter st.state = none then .ended else .store }
  | .store => { st with state := .running, main := .loop .test }
  | .loop point => loopStep st ok result point
  | .ended => { st with state := nvLoopCleanup st.state, main := .cleaned }
  | .cleaned | .exited => st

/-- Moves the call of a thread. -/
def StopSystem.goto (st : StopSystem Tid) (t : Option Tid) (point : CallPoint) : StopSystem Tid :=
  { st with calls := Function.update st.calls t point }

def requestStep (st : StopSystem Tid) (t : Option Tid) : StopSystem Tid :=
  match st.calls t with
  | .idle => st
  | .quit => { st with quit := true }.goto t .test
  | .test =>
      if st.state = .running then st.goto t .store
      else st.goto t (.ret (!st.main.initDone))
  | .store => { st with state := .stopping }.goto t .wakeup
  | .wakeup => st.goto t (.ret false)
  | .ret _ => { st with stopped := st.stopped || st.main.initDone }.goto t .idle

/-- One action; the main thread does not go on while it is in a call of its own. -/
def stopStep (st : StopSystem Tid) : StopAction Tid → StopSystem Tid
  | .main ok result => if st.calls none = .idle then mainStep st ok result else st
  | .call t quit =>
      if st.calls t = .idle ∧ (t = none → st.main.callsOut = true) then
        st.goto t (if quit then .quit else .test)
      else st
  | .step t => requestStep st t

/-- The process begins `nv_core_business_init`. -/
def stopInit (Tid : Type u) : StopSystem Tid where
  state := .init
  quit := false
  main := .clear
  calls := fun _ => .idle
  stopped := false

/-- The main thread calls `epoll_wait` next, with the loop RUNNING. -/
def StopSystem.waitsRunning (st : StopSystem Tid) : Prop :=
  st.main = .loop .wait ∧ st.calls none = .idle ∧ st.state = .running

instance (st : StopSystem Tid) : Decidable st.waitsRunning :=
  inferInstanceAs (Decidable (_ ∧ _ ∧ _))

/--
No call tests the state between the end of `nv_loop_init` and the store of
RUNNING, and a call that tested it before `nv_loop_init` completed returns before.
-/
def requestsInTime (st : StopSystem Tid) : StopAction Tid → Bool
  | .step t =>
      match st.calls t with
      | .test => !st.main.initDone || st.main.started
      | .ret early => !early || !st.main.initDone
      | .idle | .quit | .store | .wakeup => true
  | .main _ _ | .call _ _ => true

end System

section Invariant

variable {Tid : Type u}

/-- RUNNING is not stored any more, and the loop is not RUNNING. -/
structure Halted (main : MainPoint) (state : NvLoopState) : Prop where
  started : main.started = true
  state : state ≠ .running

structure StopInv (st : StopSystem Tid) : Prop where
  before : st.main.started = false → st.state = .init
  store : ∀ t, st.calls t = .store → st.main.started = true
  wakeup : ∀ t, st.calls t = .wakeup → Halted st.main st.state
  ret : ∀ t, st.calls t = .ret false → Halted st.main st.state
  stopped : st.stopped = true → Halted st.main st.state

theorem stopInv_init : StopInv (stopInit Tid) where
  before := fun _ => rfl
  store := fun _ h => by cases h
  wakeup := fun _ h => by cases h
  ret := fun _ h => by cases h
  stopped := fun h => by cases h

/-- In its loop the main thread changes only where it stands. -/
theorem loopStep_eq (st : StopSystem Tid) (ok : Bool) (result : WaitResult) (point : RunPoint) :
    ∃ main : MainPoint, main.started = true ∧
      loopStep st ok result point = { st with main := main } := by
  unfold loopStep
  split_ifs
  · exact ⟨.exited, rfl, rfl⟩
  · cases nvLoopRunNext st.state result point with
    | some point => exact ⟨.loop point, rfl, rfl⟩
    | none => exact ⟨.ended, rfl, rfl⟩

theorem mainStep_calls (st : StopSystem Tid) (ok : Bool) (result : WaitResult) :
    (mainStep st ok result).calls = st.calls ∧ (mainStep st ok result).stopped = st.stopped := by
  unfold mainStep
  cases st.main with
  | loop point =>
      obtain ⟨main, -, hmain⟩ := loopStep_eq st ok result point
      simp only [hmain, and_self]
  | clear | initState | business | runLoop | enter | store | ended | cleaned | exited =>
      exact ⟨rfl, rfl⟩

/-- Once it has stored RUNNING it stores it no more. -/
theorem mainStep_started
    {st : StopSystem Tid} (h : st.main.started = true) (ok : Bool) (result : WaitResult) :
    (mainStep st ok result).main.started = true ∧
      (st.state ≠ .running → (mainStep st ok result).state ≠ .running) := by
  unfold mainStep
  cases hmain : st.main with
  | loop point =>
      obtain ⟨main, hstarted, hloop⟩ := loopStep_eq st ok result point
      simp only [hloop]
      exact ⟨hstarted, id⟩
  | ended => exact ⟨rfl, fun _ => by simp [nvLoopCleanup]⟩
  | cleaned | exited => exact ⟨h, id⟩
  | clear | initState | business | runLoop | enter | store => simp [hmain, MainPoint.started] at h

/-- Before that the state is the one that `nv_loop_init` stores. -/
theorem mainStep_before
    {st : StopSystem Tid} (h : st.main.started = false → st.state = .init) (ok : Bool)
    (result : WaitResult) :
    (mainStep st ok result).main.started = false → (mainStep st ok result).state = .init := by
  intro hbefore
  by_cases hstarted : st.main.started = true
  · simp [(mainStep_started hstarted ok result).1] at hbefore
  · have hinit := h (Bool.eq_false_iff.mpr hstarted)
    unfold mainStep at hbefore ⊢
    cases hmain : st.main with
    | clear | initState => rfl
    | business | runLoop | enter => exact hinit
    | store => simp [hmain, MainPoint.started] at hbefore
    | loop | ended | cleaned | exited => simp [hmain, MainPoint.started] at hstarted

theorem StopInv.main {st : StopSystem Tid} (h : StopInv st) (ok : Bool) (result : WaitResult) :
    StopInv (mainStep st ok result) := by
  obtain ⟨hcalls, hstopped⟩ := mainStep_calls st ok result
  have hhalted : Halted st.main st.state →
      Halted (mainStep st ok result).main (mainStep st ok result).state := by
    intro hold
    obtain ⟨hstarted, hstate⟩ := mainStep_started hold.started ok result
    exact ⟨hstarted, hstate hold.state⟩
  exact
    { before := mainStep_before h.before ok result
      store := fun t ht => (mainStep_started (h.store t (hcalls ▸ ht)) ok result).1
      wakeup := fun t ht => hhalted (h.wakeup t (hcalls ▸ ht))
      ret := fun t ht => hhalted (h.ret t (hcalls ▸ ht))
      stopped := fun hs => hhalted (h.stopped (hstopped ▸ hs)) }

section Requests

variable [DecidableEq Tid]

/-- A call moves to a point about which its own facts are known. -/
theorem StopInv.goto {st : StopSystem Tid} (h : StopInv st) (t : Option Tid) {point : CallPoint}
    (hstore : point = .store → st.main.started = true)
    (hhalted : point = .wakeup ∨ point = .ret false → Halted st.main st.state) :
    StopInv (st.goto t point) := by
  have hcalls : ∀ t' point', (st.goto t point).calls t' = point' →
      point = point' ∨ st.calls t' = point' := by
    intro t' point' ht'
    by_cases htt : t' = t
    · subst htt
      exact Or.inl (by simpa [StopSystem.goto] using ht')
    · exact Or.inr (by simpa [StopSystem.goto, htt] using ht')
  exact
    { before := h.before
      store := fun t' ht' => (hcalls t' _ ht').elim hstore (h.store t')
      wakeup := fun t' ht' => (hcalls t' _ ht').elim (fun hp => hhalted (Or.inl hp)) (h.wakeup t')
      ret := fun t' ht' => (hcalls t' _ ht').elim (fun hp => hhalted (Or.inr hp)) (h.ret t')
      stopped := h.stopped }

theorem StopInv.request {st : StopSystem Tid} (h : StopInv st) {t : Option Tid}
    (hgood : requestsInTime st (.step t) = true) : StopInv (requestStep st t) := by
  unfold requestStep
  unfold requestsInTime at hgood
  cases hpoint : st.calls t with
  | idle => exact h
  | quit =>
      have hquit : StopInv { st with quit := true } := ⟨h.before, h.store, h.wakeup, h.ret, h.stopped⟩
      exact hquit.goto t (fun hp => by cases hp) (fun hp => by rcases hp with hp | hp <;> cases hp)
  | test =>
      simp only [hpoint, Bool.or_eq_true, Bool.not_eq_true'] at hgood
      split_ifs with hrunning
      · -- The state is RUNNING only after it was stored.
        refine h.goto t (fun _ => ?_) (fun hp => by rcases hp with hp | hp <;> cases hp)
        by_contra hstarted
        have hinit := h.before (Bool.eq_false_iff.mpr hstarted)
        rw [hrunning] at hinit
        cases hinit
      · refine h.goto t (fun hp => by cases hp) (fun hp => ⟨?_, hrunning⟩)
        rcases hp with hp | hp
        · cases hp
        · have hdone : st.main.initDone = true := by simpa using hp
          rcases hgood with hearly | hstarted
          · rw [hdone] at hearly
            cases hearly
          · exact hstarted
  | store =>
      have hstarted := h.store t hpoint
      have hstopping : Halted st.main NvLoopState.stopping := ⟨hstarted, by decide⟩
      have hstored : StopInv { st with state := .stopping } :=
        { before := fun hb => by rw [hstarted] at hb; cases hb
          store := h.store
          wakeup := fun _ _ => hstopping
          ret := fun _ _ => hstopping
          stopped := fun _ => hstopping }
      exact hstored.goto t (fun hp => by cases hp) (fun _ => hstopping)
  | wakeup =>
      exact h.goto t (fun hp => by cases hp) (fun _ => h.wakeup t hpoint)
  | ret early =>
      simp only [hpoint, Bool.or_eq_true, Bool.not_eq_true'] at hgood
      have hreturned : StopInv { st with stopped := st.stopped || st.main.initDone } :=
        { before := h.before
          store := h.store
          wakeup := h.wakeup
          ret := h.ret
          stopped := by
            intro hs
            rcases Bool.or_eq_true_iff.mp hs with hold | hdone
            · exact h.stopped hold
            · rcases hgood with hlate | hearly
              · exact h.ret t (hlate ▸ hpoint)
              · rw [hdone] at hearly
                cases hearly }
      exact hreturned.goto t (fun hp => by cases hp) (fun hp => by rcases hp with hp | hp <;> cases hp)

theorem StopInv.step
    (st : StopSystem Tid) (a : StopAction Tid) (h : StopInv st) (hgood : requestsInTime st a = true) :
    StopInv (stopStep st a) := by
  cases a with
  | main ok result =>
      simp only [stopStep]
      split_ifs
      · exact h.main ok result
      · exact h
  | call t quit =>
      simp only [stopStep]
      split_ifs
      · exact h.goto t (fun hp => by cases hp) (fun hp => by rcases hp with hp | hp <;> cases hp)
      · exact h.goto t (fun hp => by cases hp) (fun hp => by rcases hp with hp | hp <;> cases hp)
      · exact h
  | step t => exact h.request hgood

end Requests

end Invariant

section Runs

variable {Tid : Type u} [DecidableEq Tid]

/--
However the requests interleave with the start of the loop: as long as none of
them tests the state between the end of `nv_loop_init` and the store of RUNNING,
and none that tested it earlier is still to return, `epoll_wait` is never called
with the loop RUNNING once a request has returned success.
-/
theorem nvLoopStop_not_lost
    (as : List (StopAction Tid))
    (hgood : Along stopStep (fun st a => requestsInTime st a = true) (stopInit Tid) as) :
    (run stopStep (stopInit Tid) as).waitsRunning →
      (run stopStep (stopInit Tid) as).stopped = false := by
  intro hwaits
  have hinv := run_invariant_of_along StopInv.step stopInv_init hgood
  refine Bool.eq_false_iff.mpr fun hstopped => ?_
  exact (hinv.stopped hstopped).state hwaits.2.2

/-- A thread asks to quit while the main thread is about to wait. -/
theorem nvLoopStop_not_lost_from_thread :
    let as : List (StopAction Unit) :=
      [.main true .ready, .main true .ready, .main true .ready, .main true .ready,
        .main true .ready, .main true .ready, .main true .ready, .call (some ()) true,
        .step (some ()), .step (some ()), .step (some ()), .step (some ()), .step (some ())]
    Along stopStep (fun st a => requestsInTime st a = true) (stopInit Unit) as ∧
      (run stopStep (stopInit Unit) as).main = .loop .wait ∧
      (run stopStep (stopInit Unit) as).stopped = true ∧
      ¬ (run stopStep (stopInit Unit) as).waitsRunning := by
  intro as
  have hgood : Along stopStep (fun st a => requestsInTime st a = true) (stopInit Unit) as := by
    decide
  have hstopped : (run stopStep (stopInit Unit) as).stopped = true := by decide
  refine ⟨hgood, by decide, hstopped, fun hwaits => ?_⟩
  have hlost := nvLoopStop_not_lost as hgood hwaits
  rw [hstopped] at hlost
  cases hlost

/-- `nv_core_request_quit` from a hook, after `nv_loop_init`: the loop waits all the same. -/
theorem nvCoreRequestQuit_lost_before_run :
    let st := run stopStep (stopInit Unit)
      [.main true .ready, .main true .ready, .call none true, .step none, .step none, .step none,
        .main true .ready, .main true .ready, .main true .ready, .main true .ready,
        .main true .ready]
    st.stopped = true ∧ st.quit = true ∧ st.waitsRunning := by
  decide

end Runs

end Libnv.LoopRun
