import Libnv.Core.Children
import Libnv.Base.Status

/-!
# A launch that fails

When `fork` fails, `nv_core_workers_launch` returns `NV_ERROR` at once, and
`nv_core_run` calls `nv_core_shutdown` and returns.  Workers are signalled and
reaped in `nv_core_master_supervise` only, which is not reached: no function that
`nv_core_shutdown` calls uses `kill` or `waitpid`, and the phase `returned` of the
launching process is final.  The workers that were forked before go on running.

The history of a run records which workers the launch has forked, and which pids
were passed to `kill` or returned by `waitpid`.
-/

namespace Libnv.Worker

open Transition

section History

/-- The master and its children, with the history of the launch. -/
structure LaunchHistory where
  sys : ChildSystem
  /-- The workers that `nv_core_workers_launch` has forked. -/
  launched : List Nat
  /-- The pids that were passed to `kill`, or reaped. -/
  handled : List Nat
  /-- The iteration in which `fork` failed. -/
  failedAt : Option Nat
deriving DecidableEq

variable (conf : WorkerConf)

/-- What `nv_core_workers_launch` has returned in the launching process. -/
def launchResult (s : ChildSystem) : Option NvRc :=
  match s.phase with
  | .launching _ => none
  | .supervising => if s.sup.pc = .returned then some .declined else none
  | .returned => if conf.workerProcesses ≤ 1 then some .ok else some .error

/-- The iteration of the launch whose `fork` the action answers. -/
def forksAt (s : ChildSystem) : ChildAction → Option (Nat × ChildInput)
  | .master input =>
      match s.phase with
      | .launching i =>
          if conf.workerProcesses ≤ 1 then none
          else if i < conf.count then some (i, input)
          else none
      | .supervising | .returned => none
  | .exit _ | .quit => none

/-- The pids that an action passes to `kill` or reaps. -/
def handles (s : ChildSystem) : ChildAction → List Nat
  | .master input =>
      match s.phase with
      | .supervising => s.targets ++ s.reaps input
      -- `nv_core_shutdown` and `nv_core_free_saved_argv` signal and reap nobody
      | .launching _ | .returned => []
  | .exit _ | .quit => []

def historyStep (h : LaunchHistory) (a : ChildAction) : LaunchHistory :=
  match forksAt conf h.sys a with
  | some (i, input) =>
      match h.sys.newPid input with
      | some pid => { h with sys := childStep conf h.sys a, launched := pid :: h.launched }
      | none => { h with sys := childStep conf h.sys a, failedAt := some i }
  | none => { h with sys := childStep conf h.sys a, handled := handles h.sys a ++ h.handled }

/-- `nv_core_workers_launch` is called; the process may have other children. -/
def launchStart (others : List Nat) : LaunchHistory where
  sys := childInit conf others
  launched := []
  handled := []
  failedAt := none

/-- Every worker of the launch has been signalled or reaped. -/
def LaunchHistory.NoOrphans (h : LaunchHistory) : Prop :=
  ∀ pid ∈ h.launched, pid ∈ h.handled

end History

section Invariant

variable {conf : WorkerConf}

/-- What the history says in each phase of the launch. -/
def LaunchSound (conf : WorkerConf) (h : LaunchHistory) : Prop :=
  match h.sys.phase with
  | .launching i => h.failedAt = none ∧ h.handled = [] ∧ h.launched.length = i
  | .supervising => h.failedAt = none
  | .returned =>
      h.handled = [] ∧ (1 < conf.workerProcesses → h.failedAt = some h.launched.length)

theorem LaunchSound.start (others : List Nat) : LaunchSound conf (launchStart conf others) :=
  ⟨rfl, rfl, rfl⟩

theorem LaunchSound.launch {h : LaunchHistory} {i : Nat} (hphase : h.sys.phase = .launching i)
    (hsound : LaunchSound conf h) (input : ChildInput) :
    LaunchSound conf (historyStep conf h (.master input)) := by
  rw [LaunchSound, hphase] at hsound
  obtain ⟨hfailed, hhandled, hlaunched⟩ := hsound
  have hmove : childStep conf h.sys (.master input) = launchMove conf h.sys i input := by
    simp only [childStep, hphase]
  by_cases hone : conf.workerProcesses ≤ 1
  · have hforks : forksAt conf h.sys (.master input) = none := by
      simp only [forksAt, hphase, if_pos hone]
    have hhandles : handles h.sys (.master input) = [] := by
      simp only [handles, hphase]
    simp only [historyStep, hforks, hmove, launchMove, if_pos hone, LaunchSound, hhandles]
    exact ⟨hhandled, fun hmany => absurd hmany (Nat.not_lt.mpr hone)⟩
  · by_cases hi : i < conf.count
    · have hforks : forksAt conf h.sys (.master input) = some (i, input) := by
        simp only [forksAt, hphase, if_neg hone, if_pos hi]
      cases hpid : h.sys.newPid input with
      | some pid =>
          simp only [historyStep, hforks, hpid, hmove, launchMove, if_neg hone, if_pos hi,
            LaunchSound]
          exact ⟨hfailed, hhandled, by simp [hlaunched]⟩
      | none =>
          simp only [historyStep, hforks, hpid, hmove, launchMove, if_neg hone, if_pos hi,
            LaunchSound]
          exact ⟨hhandled, fun _ => by rw [hlaunched]⟩
    · have hforks : forksAt conf h.sys (.master input) = none := by
        simp only [forksAt, hphase, if_neg hone, if_neg hi]
      simp only [historyStep, hforks, hmove, launchMove, if_neg hone, if_neg hi, LaunchSound]
      exact hfailed

/-- An action that is no step of the master does not touch the history. -/
theorem LaunchSound.frame {h : LaunchHistory} (hsound : LaunchSound conf h) {sys : ChildSystem}
    (hphase : sys.phase = h.sys.phase) : LaunchSound conf { h with sys := sys } := by
  unfold LaunchSound at hsound ⊢
  simp only [hphase]
  exact hsound

theorem LaunchSound.step (h : LaunchHistory) (a : ChildAction) (hsound : LaunchSound conf h) :
    LaunchSound conf (historyStep conf h a) := by
  cases a with
  | master input =>
      cases hphase : h.sys.phase with
      | launching i => exact hsound.launch hphase input
      | supervising =>
          have hforks : forksAt conf h.sys (.master input) = none := by
            simp only [forksAt, hphase]
          have hmove : childStep conf h.sys (.master input) = superviseMove conf h.sys input := by
            simp only [childStep, hphase]
          have hnext : (superviseMove conf h.sys input).phase = .supervising := hphase
          rw [LaunchSound, hphase] at hsound
          simp only [historyStep, hforks, LaunchSound, hmove, hnext]
          exact hsound
      | returned =>
          have hforks : forksAt conf h.sys (.master input) = none := by
            simp only [forksAt, hphase]
          have hhandles : handles h.sys (.master input) = [] := by
            simp only [handles, hphase]
          have hmove : childStep conf h.sys (.master input) = h.sys := by
            simp only [childStep, hphase]
          simp only [historyStep, hforks, hhandles, hmove, List.nil_append]
          exact hsound
  | exit pid =>
      have hphase : (childStep conf h.sys (.exit pid)).phase = h.sys.phase := by
        simp only [childStep]
        split <;> rfl
      exact hsound.frame hphase
  | quit => exact hsound.frame rfl

end Invariant

/--
In every run in which `fork` fails in iteration `i` of the launch, the launch
returns `NV_ERROR` with `i` workers forked, and by the end of `nv_core_run` they
have all been signalled or reaped exactly when there are none.
-/
theorem nvCoreWorkersLaunch_noOrphans_iff
    (conf : WorkerConf)
    (hmany : 1 < conf.workerProcesses)
    (others : List Nat)
    (as : List ChildAction)
    (i : Nat)
    (hreturned : launchResult conf (run (historyStep conf) (launchStart conf others) as).sys =
      some .error)
    (hfailed : (run (historyStep conf) (launchStart conf others) as).failedAt = some i) :
    (run (historyStep conf) (launchStart conf others) as).launched.length = i ∧
      ((run (historyStep conf) (launchStart conf others) as).NoOrphans ↔ i = 0) := by
  have hsound : LaunchSound conf (run (historyStep conf) (launchStart conf others) as) :=
    run_invariant LaunchSound.step (LaunchSound.start others) as
  generalize run (historyStep conf) (launchStart conf others) as = h at hreturned hfailed hsound ⊢
  unfold launchResult at hreturned
  unfold LaunchSound at hsound
  cases hphase : h.sys.phase with
  | launching j => simp [hphase] at hreturned
  | supervising =>
      rw [hphase] at hsound
      rw [hfailed] at hsound
      cases hsound
  | returned =>
      rw [hphase] at hsound
      obtain ⟨hhandled, hcount⟩ := hsound
      have hlength : h.launched.length = i := by
        have := (hcount hmany).symm.trans hfailed
        exact Option.some.inj this
      refine ⟨hlength, ?_⟩
      rw [← hlength, List.length_eq_zero_iff, LaunchHistory.NoOrphans, hhandled]
      constructor
      · intro hnone
        exact List.eq_nil_iff_forall_not_mem.mpr fun pid hpid => List.not_mem_nil (hnone pid hpid)
      · intro hnil
        simp [hnil]

/-- The first `fork` fails: there is nobody to stop. -/
theorem first_fork_fails :
    (run (historyStep twoWorkers) (launchStart twoWorkers []) [quietStep]).NoOrphans :=
  (nvCoreWorkersLaunch_noOrphans_iff twoWorkers (by decide) [] [quietStep] 0 (by decide)
    (by decide)).2.mpr rfl

/-- The second `fork` fails: the first worker is neither signalled nor reaped. -/
theorem second_fork_fails :
    let h := run (historyStep twoWorkers) (launchStart twoWorkers [])
      [.master ⟨[], some 10, true⟩, quietStep, quietStep]
    launchResult twoWorkers h.sys = some .error ∧ h.failedAt = some 1 ∧ h.launched = [10] ∧
      h.handled = [] ∧ h.sys.children = [10] := by
  decide

end Libnv.Worker
