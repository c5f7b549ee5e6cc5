import Libnv.Lib.Transition

/-!
# The state of the event loop

`loop->state` and the functions of `src/event/nv_loop.c` that write it.

`nv_loop_run` stores `NV_LOOP_RUNNING` when it begins and writes the state no
more: it leaves its loop when it finds another state, or when `epoll_wait` fails.
What the handlers do to the loop's events is left out; they may stop, pause and
resume the loop.
-/

namespace Libnv.LoopRun

open Transition

/-- `nv_loop_state_t`. -/
inductive NvLoopState where
  | init
  | running
  | stopping
  | stopped
deriving DecidableEq, Repr

/-- It returns 0 in every state. -/
def nvLoopStop (state : NvLoopState) : NvLoopState :=
  if state = .running then .stopping else state

/-- `none` is the return value -1. -/
def nvLoopPause (state : NvLoopState) : Option NvLoopState :=
  if state ≠ .running then none else some .stopping

/-- `none` is the return value -1. -/
def nvLoopResume (state : NvLoopState) : Option NvLoopState :=
  if state ≠ .stopping then none else some .running

/-- All its returns leave the state that it stores first. -/
def nvLoopInit (_state : NvLoopState) : NvLoopState :=
  .init

/-- Its last store overwrites the one of `nv_loop_stop`. -/
def nvLoopCleanup (_state : NvLoopState) : NvLoopState :=
  .stopped

/-- The beginning of `nv_loop_run`; `none` is the return value -1 with `EINVAL`. -/
def nvLoopRunEnter (state : NvLoopState) : Option NvLoopState :=
  if state = .running then none else some .running

/-- Where `nv_loop_run` stands in its loop. -/
inductive RunPoint where
  /-- Before the test of the loop and the test that follows it. -/
  | test
  /-- Before `epoll_wait`. -/
  | wait
  /-- In the handlers of the pass. -/
  | handlers
deriving DecidableEq, Repr

/-- What `epoll_wait` returns. -/
inductive WaitResult where
  | ready
  | interrupted
  | failed
deriving DecidableEq, Repr

/-- `nv_loop_run` goes on; `none` when it returns. -/
def nvLoopRunNext (state : NvLoopState) (result : WaitResult) : RunPoint → Option RunPoint
  | .test =>
      if state = .running ∨ state = .stopping then
        if state = .stopping then none else some .wait
      else none
  | .wait =>
      match result with
      | .ready => some .handlers
      | .interrupted => some .test
      | .failed => none
  | .handlers => some .test

theorem nvLoopRunNext_test (state : NvLoopState) (result : WaitResult) :
    nvLoopRunNext state result .test = if state = .running then some .wait else none := by
  cases state <;> rfl

/-- The state of the loop, and the call of `nv_loop_run` that has not returned. -/
structure LoopCalls where
  state : NvLoopState
  run : Option RunPoint
deriving DecidableEq, Repr

/-- A call, or the next step of the running `nv_loop_run`. -/
inductive LoopAction where
  | init
  | run
  | stop
  | pause
  | resume
  | cleanup
  | next (result : WaitResult)
deriving DecidableEq, Repr

/-- Who may call: the program between its calls, and a handler. -/
def LoopCalls.idle (s : LoopCalls) : Bool :=
  s.run = none ∨ s.run = some .handlers

/-- One call; a call that is not possible changes nothing. -/
def callStep (s : LoopCalls) : LoopAction → LoopCalls
  | .init => if s.run = none then { s with state := nvLoopInit s.state } else s
  | .cleanup => if s.run = none then { s with state := nvLoopCleanup s.state } else s
  | .run =>
      if s.run = none then
        match nvLoopRunEnter s.state with
        | some state => { state := state, run := some .test }
        | none => s
      else s
  | .stop => if s.idle then { s with state := nvLoopStop s.state } else s
  | .pause => if s.idle then { s with state := (nvLoopPause s.state).getD s.state } else s
  | .resume => if s.idle then { s with state := (nvLoopResume s.state).getD s.state } else s
  | .next result =>
      match s.run with
      | some point => { s with run := nvLoopRunNext s.state result point }
      | none => s

/-- A loop after `nv_loop_init`. -/
def loopCreated : LoopCalls where
  state := .init
  run := none

/-- The loop is RUNNING only inside `nv_loop_run`, so that a new call of it is accepted. -/
def RunningMeansRunning (s : LoopCalls) : Prop :=
  (s.state = .running → s.run ≠ none) ∧ (s.run = none → nvLoopRunEnter s.state ≠ none)

instance (s : LoopCalls) : Decidable (RunningMeansRunning s) :=
  inferInstanceAs (Decidable (_ ∧ _))

/--
`epoll_wait` does not fail, and `nv_loop_resume` is not called on a loop in
STOPPING outside of `nv_loop_run`.
-/
def endsWell (s : LoopCalls) : LoopAction → Prop
  | .next .failed => s.run ≠ some .wait
  | .resume => s.run = none → s.state ≠ .stopping
  | .init | .run | .stop | .pause | .cleanup | .next .ready | .next .interrupted => True

instance (s : LoopCalls) : ∀ a, Decidable (endsWell s a)
  | .next .failed => inferInstanceAs (Decidable (s.run ≠ some .wait))
  | .resume => inferInstanceAs (Decidable (s.run = none → s.state ≠ .stopping))
  | .init | .run | .stop | .pause | .cleanup | .next .ready | .next .interrupted =>
      inferInstanceAs (Decidable True)

/-- What holds as long as every run of the loop has ended well. -/
structure RunInv (s : LoopCalls) : Prop where
  inside : s.state = .running → s.run ≠ none
  waiting : s.run = some .wait → s.state = .running

theorem runInv_created : RunInv loopCreated := by
  constructor <;> decide

theorem RunInv.runningMeansRunning {s : LoopCalls} (h : RunInv s) : RunningMeansRunning s := by
  refine ⟨h.inside, fun hnone => ?_⟩
  have hstate : s.state ≠ .running := fun hrunning => h.inside hrunning hnone
  simp [nvLoopRunEnter, hstate]

theorem RunInv.write {s : LoopCalls} (hidle : s.idle = true) {state : NvLoopState}
    (hinside : state = .running → s.run ≠ none) : RunInv { s with state := state } where
  inside := hinside
  waiting := by
    intro hwait
    have hrun : s.run = some .wait := hwait
    simp [LoopCalls.idle, hrun] at hidle

/-- The steps of `nv_loop_run`, but for the failure of `epoll_wait`. -/
theorem runInv_next (s : LoopCalls) {point : RunPoint} {result : WaitResult}
    (hresult : point = .wait → result ≠ .failed) :
    RunInv { s with run := nvLoopRunNext s.state result point } := by
  cases point with
  | test =>
      rw [nvLoopRunNext_test]
      split_ifs with hrunning
      · exact ⟨fun _ => by simp, fun _ => hrunning⟩
      · exact ⟨fun hstate => absurd hstate hrunning, fun hwait => by cases hwait⟩
  | wait =>
      cases result with
      | ready => exact ⟨fun _ => by simp [nvLoopRunNext], fun hwait => by cases hwait⟩
      | interrupted => exact ⟨fun _ => by simp [nvLoopRunNext], fun hwait => by cases hwait⟩
      | failed => exact absurd rfl (hresult rfl)
  | handlers => exact ⟨fun _ => by simp [nvLoopRunNext], fun hwait => by cases hwait⟩

theorem RunInv.step {s : LoopCalls} (h : RunInv s) {a : LoopAction} (hgood : endsWell s a) :
    RunInv (callStep s a) := by
  have hbetween : s.run = none → s.idle = true := by
    intro hnone
    simp [LoopCalls.idle, hnone]
  cases a with
  | init =>
      simp only [callStep]
      split_ifs with hnone
      · exact RunInv.write (hbetween hnone) (by simp [nvLoopInit])
      · exact h
  | cleanup =>
      simp only [callStep]
      split_ifs with hnone
      · exact RunInv.write (hbetween hnone) (by simp [nvLoopCleanup])
      · exact h
  | run =>
      simp only [callStep]
      split_ifs with hnone
      · cases nvLoopRunEnter s.state with
        | none => exact h
        | some state => exact ⟨fun _ => by simp, fun hwait => by cases hwait⟩
      · exact h
  | stop =>
      simp only [callStep]
      split_ifs with hidle
      · refine RunInv.write hidle fun hrunning => ?_
        unfold nvLoopStop at hrunning
        split_ifs at hrunning
        exact h.inside hrunning
      · exact h
  | pause =>
      simp only [callStep]
      split_ifs with hidle
      · refine RunInv.write hidle fun hrunning => ?_
        by_cases hstate : s.state = .running
        · exact h.inside hstate
        · simp [nvLoopPause, hstate] at hrunning
      · exact h
  | resume =>
      simp only [callStep]
      split_ifs with hidle
      · refine RunInv.write hidle fun hrunning => ?_
        by_cases hstate : s.state = .stopping
        · exact fun hnone => hgood hnone hstate
        · simp only [nvLoopResume, hstate, ne_eq, not_false_eq_true, if_true] at hrunning
          exact h.inside hrunning
      · exact h
  | next result =>
      simp only [callStep]
      cases hpoint : s.run with
      | none => exact h
      | some point =>
          refine runInv_next s fun hwait hfailed => ?_
          subst hwait hfailed
          exact hgood hpoint

theorem runningMeansRunning_step_iff {s : LoopCalls} (h : RunInv s) (a : LoopAction) :
    RunningMeansRunning (callStep s a) ↔ endsWell s a := by
  refine ⟨fun hmeans => ?_, fun hgood => (h.step hgood).runningMeansRunning⟩
  by_contra hbad
  cases a with
  | resume =>
      -- The run has ended in STOPPING, and the state is set back to RUNNING.
      obtain ⟨hnone, hstate⟩ : s.run = none ∧ s.state = .stopping := by
        simpa [endsWell] using hbad
      simp [RunningMeansRunning, callStep, LoopCalls.idle, nvLoopResume, hnone, hstate] at hmeans
  | next result =>
      cases result with
      | ready | interrupted => exact hbad trivial
      | failed =>
          -- The run ends, and the state is the one of its last test.
          have hwait : s.run = some .wait := by simpa [endsWell] using hbad
          have hstate := h.waiting hwait
          simp [RunningMeansRunning, callStep, nvLoopRunNext, hwait, hstate] at hmeans
  | init | run | stop | pause | cleanup => exact hbad trivial

/--
For every sequence of calls, with `epoll_wait` returning anything and the handlers
stopping, pausing and resuming the loop: RUNNING means running throughout exactly
when `epoll_wait` never fails with an error other than `EINTR` and
`nv_loop_resume` is never called between runs on a loop left in STOPPING.
-/
theorem nvLoop_running_means_running_iff (as : List LoopAction) :
    Along callStep (fun s a => RunningMeansRunning (callStep s a)) loopCreated as ↔
      Along callStep endsWell loopCreated as :=
  along_iff_along_of_inv runInv_created
    (fun _ _ hinv hgood => hinv.step hgood)
    (fun _ a hinv => runningMeansRunning_step_iff hinv a) as

/-- After `epoll_wait` has failed the loop is RUNNING for ever, and cannot be run again. -/
theorem nvLoop_running_after_failed_wait :
    let s := run callStep loopCreated [.run, .next .ready, .next .failed]
    s = { state := .running, run := none } ∧ callStep s .run = s ∧ ¬ RunningMeansRunning s := by
  decide

end Libnv.LoopRun
