import Libnv.Core.Workers
import Mathlib.Data.List.Nodup

/-!
# The children of the master

The kernel keeps the children that have not been reaped, and which of them have
exited.  `fork` returns a pid that is not in use, so a pid may come back once it
has been reaped; `waitpid` returns children that have exited.  The table
`g_workers` is filled by `nv_core_workers_launch` and kept by
`nv_core_master_supervise`.

Throughout, the alive slots hold distinct children that have not been reaped, and
every `kill` and every blocking `waitpid` is for one of them.  Only the last loop
of `nv_core_master_supervise` reaps a worker without clearing its slot.

`g_master_quit` may be set at any time.
-/

namespace Libnv.Worker

open Transition

section System

inductive LaunchPhase where
  | launching (i : Nat)
  | supervising
  /-- `nv_core_workers_launch` has returned without supervising. -/
  | returned
deriving DecidableEq

/-- The master and the kernel's view of its children. -/
structure ChildSystem where
  phase : LaunchPhase
  sup : Supervisor
  /-- The children that have not been reaped. -/
  children : List Nat
  /-- Those of them that have exited. -/
  exited : List Nat
deriving DecidableEq

/-- What the system calls of a step return, as far as the kernel allows it. -/
structure ChildInput where
  /-- The children that `waitpid(-1, &status, WNOHANG)` finds in turn. -/
  reaped : List Nat
  /-- The pid for the next child, if `fork` succeeds. -/
  forked : Option Nat
  /-- The blocking `waitpid` returns the child and not an error. -/
  waitOk : Bool
deriving DecidableEq

/-- The master takes its next step, a child exits, or the quit flag is set. -/
inductive ChildAction where
  | master (input : ChildInput)
  | exit (pid : Nat)
  | quit

/-- `waitpid(-1, &status, WNOHANG)` until it finds no child. -/
def waitpidAll (exited : List Nat) : List Nat → List Nat
  | [] => []
  | pid :: rest =>
      if pid ∈ exited then pid :: waitpidAll (exited.erase pid) rest else waitpidAll exited rest

def ChildSystem.newPid (s : ChildSystem) (input : ChildInput) : Option Nat :=
  input.forked.filter fun pid => 0 < pid ∧ pid ∉ s.children

/-- The pids that the next step of the master reaps by `nv_core_worker_reap_all`. -/
def ChildSystem.reaps (s : ChildSystem) (input : ChildInput) : List Nat :=
  match s.sup.pc with
  | .reap => waitpidAll s.exited input.reaped
  | .drain round => if round < 30 then waitpidAll s.exited input.reaped else []
  | _ => []

def WorkerSlot.signalled (w : WorkerSlot) : Bool := w.alive ∧ 0 < w.pid

/-- The child that the next step of the master kills and waits for. -/
def ChildSystem.waits (s : ChildSystem) : Option Nat :=
  match s.sup.pc with
  | .kill i => (s.sup.workers[i]?.filter WorkerSlot.signalled).map WorkerSlot.pid
  | _ => none

/-- The pids that the next step of the master passes to `kill` or to a blocking `waitpid`. -/
def ChildSystem.targets (s : ChildSystem) : List Nat :=
  match s.phase, s.sup.pc with
  | .supervising, .stop i =>
      ((s.sup.workers[i]?.filter WorkerSlot.signalled).map WorkerSlot.pid).toList
  | .supervising, .kill _ => s.waits.toList
  | _, _ => []

/-- The child is no longer there. -/
def removeAll (pids l : List Nat) : List Nat := pids.foldl List.erase l

variable (conf : WorkerConf)

/-- An iteration of the loop of `nv_core_workers_launch`, in the launching process. -/
def launchMove (s : ChildSystem) (i : Nat) (input : ChildInput) : ChildSystem :=
  if conf.workerProcesses ≤ 1 then { s with phase := .returned }
  else if i < conf.count then
    match s.newPid input with
    | none => { s with phase := .returned }
    | some pid =>
        { s with
          phase := .launching (i + 1)
          sup := { s.sup with workers := s.sup.workers.set i ⟨pid, i + 1, true⟩ }
          children := pid :: s.children }
  else { s with phase := .supervising, sup := { s.sup with pc := .enter } }

/-- A step of `nv_core_master_supervise`. -/
def superviseMove (s : ChildSystem) (input : ChildInput) : ChildSystem :=
  let forked := if s.sup.forks.isSome then s.newPid input else none
  let gone := s.reaps input ++ if input.waitOk then s.waits.toList else []
  { s with
    sup := superviseStep conf.workerRespawn s.sup ⟨s.reaps input, forked⟩
    children := forked.toList ++ removeAll gone s.children
    exited := removeAll gone s.exited }

def childStep (s : ChildSystem) : ChildAction → ChildSystem
  | .master input =>
      match s.phase with
      | .launching i => launchMove conf s i input
      | .supervising => superviseMove conf s input
      | .returned => s
  | .exit pid => if pid ∈ s.children then { s with exited := s.exited.insert pid } else s
  | .quit => { s with sup := { s.sup with quit := true } }

/-- `nv_core_workers_launch` is called; the process may have other children. -/
def childInit (others : List Nat) : ChildSystem where
  phase := .launching 0
  sup := { pc := .enter, workers := List.replicate conf.count ⟨0, 0, false⟩, quit := false }
  children := others
  exited := []

/-- The alive slots hold distinct children that have not been reaped. -/
structure OwnChildren (s : ChildSystem) : Prop where
  child : ∀ w ∈ s.sup.workers, w.alive = true → w.pid ∈ s.children
  distinct : ∀ (i j : Nat) (w w' : WorkerSlot), s.sup.workers[i]? = some w →
    s.sup.workers[j]? = some w' → w.alive = true → w'.alive = true → w.pid = w'.pid → i = j

/-- What is expected of a step. -/
def ChildSound (s : ChildSystem) (a : ChildAction) : Prop :=
  (∀ input, a = .master input → ∀ pid ∈ s.targets, pid ∈ s.children) ∧
    OwnChildren (childStep conf s a)

/-- When the last loop gets to a slot, its worker is gone, or `waitpid` fails. -/
def ReapedBefore (s : ChildSystem) : ChildAction → Prop
  | .master input => s.phase = .supervising → s.waits.isSome = true → input.waitOk = false
  | _ => True

instance (s : ChildSystem) (a : ChildAction) : Decidable (ReapedBefore s a) :=
  match a with
  | .master input => inferInstanceAs
      (Decidable (s.phase = .supervising → s.waits.isSome = true → input.waitOk = false))
  | .exit _ => inferInstanceAs (Decidable True)
  | .quit => inferInstanceAs (Decidable True)

end System

section Invariant

variable {i pid : Nat} {w w' : WorkerSlot} {ws : List WorkerSlot}

def alivePids (ws : List WorkerSlot) : List Nat :=
  (ws.filter WorkerSlot.alive).map WorkerSlot.pid

theorem mem_alivePids : pid ∈ alivePids ws ↔ ∃ w ∈ ws, w.alive = true ∧ w.pid = pid := by
  simp [alivePids, and_assoc]

theorem alivePids_reapOne (pid : Nat) (ws : List WorkerSlot) :
    alivePids (reapOne pid ws) = (alivePids ws).erase pid := by
  induction ws with
  | nil => rfl
  | cons w ws ih =>
      by_cases halive : w.alive = true
      · by_cases hpid : w.pid = pid
        · simp [reapOne, alivePids, halive, hpid]
        · have hcons : alivePids (w :: ws) = w.pid :: alivePids ws := by
            simp [alivePids, halive]
          have hreap : alivePids (reapOne pid (w :: ws)) = w.pid :: alivePids (reapOne pid ws) := by
            simp [reapOne, alivePids, halive, hpid]
          rw [hreap, hcons, ih, List.erase_cons_tail (by simpa using hpid)]
      · have hcons : alivePids (w :: ws) = alivePids ws := by
          simp [alivePids, halive]
        have hreap : alivePids (reapOne pid (w :: ws)) = alivePids (reapOne pid ws) := by
          simp [reapOne, alivePids, halive]
        rw [hreap, hcons, ih]

theorem alivePids_reapAll (pids : List Nat) (ws : List WorkerSlot) :
    alivePids (nvCoreWorkerReapAll pids ws) = removeAll pids (alivePids ws) := by
  induction pids generalizing ws with
  | nil => rfl
  | cons pid pids ih =>
      have hstep : nvCoreWorkerReapAll (pid :: pids) ws =
          nvCoreWorkerReapAll pids (reapOne pid ws) := rfl
      rw [hstep, ih, alivePids_reapOne]
      rfl

theorem alivePids_set (hi : ws[i]? = some w) (hdead : w.alive = false) (halive : w'.alive = true) :
    (alivePids (ws.set i w')).Perm (w'.pid :: alivePids ws) := by
  induction ws generalizing i with
  | nil => cases hi
  | cons v ws ih =>
      cases i with
      | zero =>
          obtain rfl : v = w := by simpa using hi
          simp [alivePids, hdead, halive]
      | succ i =>
          have hrest := ih (by simpa using hi)
          by_cases hv : v.alive = true
          · have h₁ : alivePids ((v :: ws).set (i + 1) w') = v.pid :: alivePids (ws.set i w') := by
              simp [alivePids, hv]
            have h₂ : alivePids (v :: ws) = v.pid :: alivePids ws := by
              simp [alivePids, hv]
            rw [h₁, h₂]
            exact (hrest.cons v.pid).trans (List.Perm.swap _ _ _)
          · have h₁ : alivePids ((v :: ws).set (i + 1) w') = alivePids (ws.set i w') := by
              simp [alivePids, hv]
            have h₂ : alivePids (v :: ws) = alivePids ws := by
              simp [alivePids, hv]
            rw [h₁, h₂]
            exact hrest

/-- Two alive slots with one pid would list it twice. -/
theorem index_eq_of_nodup (hnodup : (alivePids ws).Nodup) {j : Nat}
    (hi : ws[i]? = some w) (hj : ws[j]? = some w') (hw : w.alive = true) (hw' : w'.alive = true)
    (hpid : w.pid = w'.pid) : i = j := by
  induction ws generalizing i j with
  | nil => cases hi
  | cons v ws ih =>
      have hmem : ∀ {k : Nat} {u : WorkerSlot}, ws[k]? = some u → u.alive = true →
          u.pid ∈ alivePids ws := fun hk hu =>
        mem_alivePids.mpr ⟨_, List.mem_of_getElem? hk, hu, rfl⟩
      have hhead : v.alive = true → v.pid ∉ alivePids ws := by
        intro hv
        have hcons : alivePids (v :: ws) = v.pid :: alivePids ws := by
          simp [alivePids, hv]
        rw [hcons] at hnodup
        exact (List.nodup_cons.mp hnodup).1
      have htail : (alivePids ws).Nodup := by
        refine hnodup.sublist ?_
        exact ((List.sublist_cons_self v ws).filter _).map _
      cases i with
      | zero =>
          obtain rfl : v = w := by simpa using hi
          cases j with
          | zero => rfl
          | succ j => exact absurd (hpid ▸ hmem (by simpa using hj) hw') (hhead hw)
      | succ i =>
          cases j with
          | zero =>
              obtain rfl : v = w' := by simpa using hj
              exact absurd (hpid ▸ hmem (by simpa using hi) hw) (hhead hw')
          | succ j =>
              exact congrArg (· + 1) (ih htail (by simpa using hi) (by simpa using hj))

/-- Removing the same pids on both sides keeps a list of distinct pids inside the other. -/
theorem removeAll_subset
    (pids : List Nat) {l l' : List Nat} (hl : l.Nodup) (hl' : l'.Nodup) (hsub : l ⊆ l') :
    (removeAll pids l).Nodup ∧ (removeAll pids l').Nodup ∧
      removeAll pids l ⊆ removeAll pids l' := by
  induction pids generalizing l l' with
  | nil => exact ⟨hl, hl', hsub⟩
  | cons pid pids ih =>
      refine ih (hl.erase pid) (hl'.erase pid) ?_
      intro x hx
      obtain ⟨hne, hmem⟩ := hl.mem_erase_iff.mp hx
      exact hl'.mem_erase_iff.mpr ⟨hne, hsub hmem⟩

/-- The invariant of the table and the kernel's children. -/
structure ChildInv (s : ChildSystem) : Prop where
  distinct : (alivePids s.sup.workers).Nodup
  children : s.children.Nodup
  own : alivePids s.sup.workers ⊆ s.children
  unfilled : ∀ i, s.phase = .launching i → ∀ j w, i ≤ j → s.sup.workers[j]? = some w →
    w.alive = false

theorem ChildInv.ownChildren {s : ChildSystem} (h : ChildInv s) : OwnChildren s := by
  constructor
  · intro w hw halive
    exact h.own (mem_alivePids.mpr ⟨w, hw, halive, rfl⟩)
  · intro i j w w' hi hj hw hw' hpid
    exact index_eq_of_nodup h.distinct hi hj hw hw' hpid

theorem newPid_spec {s : ChildSystem} {input : ChildInput} (h : s.newPid input = some pid) :
    pid ∉ s.children := by
  unfold ChildSystem.newPid at h
  have hok := (Option.filter_eq_some_iff.mp h).2
  simp only [decide_eq_true_eq] at hok
  exact hok.2

theorem ChildInv.fill {s s' : ChildSystem} (h : ChildInv s)
    (hi : s.sup.workers[i]? = some w) (hdead : w.alive = false) (halive : w'.alive = true)
    (hpid : w'.pid = pid) (hfresh : pid ∉ s.children)
    (hworkers : s'.sup.workers = s.sup.workers.set i w')
    (hchildren : s'.children = pid :: s.children)
    (hunfilled : ∀ i, s'.phase = .launching i → ∀ j w, i ≤ j → s'.sup.workers[j]? = some w →
      w.alive = false) : ChildInv s' := by
  have hperm := alivePids_set hi hdead halive
  rw [hpid] at hperm
  refine ⟨?_, ?_, ?_, hunfilled⟩
  · rw [hworkers, hperm.nodup_iff, List.nodup_cons]
    exact ⟨fun hmem => hfresh (h.own hmem), h.distinct⟩
  · rw [hchildren, List.nodup_cons]
    exact ⟨hfresh, h.children⟩
  · rw [hworkers, hchildren]
    intro x hx
    rcases List.mem_cons.mp (hperm.mem_iff.mp hx) with rfl | hold
    · exact List.mem_cons_self
    · exact List.mem_cons_of_mem _ (h.own hold)

variable {conf : WorkerConf} {s s' : ChildSystem}

/-- A step that leaves the table alone and loses no child of it. -/
theorem ChildInv.frame (h : ChildInv s) (hworkers : s'.sup.workers = s.sup.workers)
    (hchildren : s'.children.Nodup) (hkept : alivePids s.sup.workers ⊆ s'.children)
    (hphase : ∀ i, s'.phase = .launching i → s.phase = .launching i) : ChildInv s' := by
  refine ⟨?_, hchildren, ?_, ?_⟩
  · rw [hworkers]
    exact h.distinct
  · rw [hworkers]
    exact hkept
  · intro i hi
    rw [hworkers]
    exact h.unfilled i (hphase i hi)

theorem ChildInv.launch (h : ChildInv s) (hphase : s.phase = .launching i) (input : ChildInput) :
    ChildInv (launchMove conf s i input) := by
  unfold launchMove
  split
  · exact h.frame rfl h.children h.own (by simp)
  · split
    · cases hnew : s.newPid input with
      | none => exact h.frame rfl h.children h.own (by simp)
      | some pid =>
          have hfresh := newPid_spec hnew
          cases hslot : s.sup.workers[i]? with
          | none =>
              have hsame : s.sup.workers.set i ⟨pid, i + 1, true⟩ = s.sup.workers :=
                List.set_eq_of_length_le (List.getElem?_eq_none_iff.mp hslot)
              refine ⟨?_, List.nodup_cons.mpr ⟨hfresh, h.children⟩, ?_, ?_⟩
              · dsimp only
                rw [hsame]
                exact h.distinct
              · dsimp only
                rw [hsame]
                exact fun x hx => List.mem_cons_of_mem pid (h.own hx)
              · dsimp only
                rintro k hk j w hj
                rw [hsame]
                obtain rfl : i + 1 = k := by simpa using hk
                exact h.unfilled i hphase j w (by omega)
          | some w =>
              refine h.fill hslot (h.unfilled i hphase i w (Nat.le_refl i) hslot) rfl rfl
                hfresh rfl rfl ?_
              intro k hk j w' hj hw'
              obtain rfl : i + 1 = k := by simpa using hk
              rw [List.getElem?_set_ne (by omega)] at hw'
              exact h.unfilled i hphase j w' (by omega) hw'
    · exact h.frame rfl h.children h.own (by simp)

/-- A step of `nv_core_master_supervise` that reaps the given pids into the table. -/
theorem ChildInv.reap (h : ChildInv s) (pids : List Nat)
    (hworkers : s'.sup.workers = nvCoreWorkerReapAll pids s.sup.workers)
    (hchildren : s'.children = removeAll pids s.children)
    (hphase : ∀ i, s'.phase ≠ .launching i) : ChildInv s' := by
  obtain ⟨hdistinct, hnodup, hsub⟩ := removeAll_subset pids h.distinct h.children h.own
  refine ⟨?_, ?_, ?_, fun i hi => absurd hi (hphase i)⟩
  · rw [hworkers, alivePids_reapAll]
    exact hdistinct
  · rw [hchildren]
    exact hnodup
  · rw [hworkers, hchildren, alivePids_reapAll]
    exact hsub

/-- A step of `nv_core_master_supervise` that touches neither table nor children. -/
theorem ChildInv.unchanged (h : ChildInv s) (hworkers : s'.sup.workers = s.sup.workers)
    (hchildren : s'.children = s.children)
    (hphase : ∀ i, s'.phase ≠ .launching i) : ChildInv s' := by
  refine h.frame hworkers ?_ ?_ fun i hi => absurd hi (hphase i)
  · rw [hchildren]
    exact h.children
  · rw [hchildren]
    exact h.own

theorem superviseMove_not_launching
    (conf : WorkerConf) (hphase : s.phase = .supervising) (input : ChildInput) (i : Nat) :
    (superviseMove conf s input).phase ≠ .launching i := by
  simp [superviseMove, hphase]

theorem ChildInv.respawn
    (h : ChildInv s) (hphase : s.phase = .supervising) (hpc : s.sup.pc = .respawn i)
    (input : ChildInput) : ChildInv (superviseMove conf s input) := by
  have hnot := superviseMove_not_launching conf hphase input
  have hchildren : (superviseMove conf s input).children =
      (if s.sup.forks.isSome then s.newPid input else none).toList ++ s.children := by
    simp [superviseMove, ChildSystem.waits, ChildSystem.reaps, hpc, removeAll]
  cases hslot : s.sup.workers[i]? with
  | none =>
      have hforks : s.sup.forks = none := by simp [Supervisor.forks, hpc, hslot]
      refine h.unchanged ?_ (by simp [hchildren, hforks]) hnot
      simp [superviseMove, superviseStep, hpc, hslot]
  | some w =>
      by_cases halive : w.alive = true
      · have hforks : s.sup.forks = none := by
          simp [Supervisor.forks, hpc, hslot, halive, Option.filter]
        refine h.unchanged ?_ (by simp [hchildren, hforks]) hnot
        simp [superviseMove, superviseStep, hpc, hslot, halive]
      · have hdead : w.alive = false := Bool.eq_false_iff.mpr halive
        have hforks : s.sup.forks = some w := by
          simp [Supervisor.forks, hpc, hslot, hdead, Option.filter]
        cases hnew : s.newPid input with
        | none =>
            refine h.unchanged ?_ (by simp [hchildren, hforks, hnew]) hnot
            simp [superviseMove, superviseStep, hpc, hslot, hdead, hforks, hnew]
        | some pid =>
            have halive' : ({ w with pid := pid, alive := true } : WorkerSlot).alive = true :=
              rfl
            refine h.fill hslot hdead halive' rfl (newPid_spec hnew) ?_ ?_
              fun i hi => absurd hi (hnot i)
            · simp [superviseMove, superviseStep, hpc, hslot, hdead, hforks, hnew]
            · simp [hchildren, hforks, hnew]

theorem ChildInv.supervise (h : ChildInv s) (hphase : s.phase = .supervising) (input : ChildInput)
    (hok : s.waits.isSome = true → input.waitOk = false) :
    ChildInv (superviseMove conf s input) := by
  have hnot := superviseMove_not_launching conf hphase input
  cases hpc : s.sup.pc with
  | reap =>
      refine h.reap (s.reaps input) ?_ ?_ hnot
      · simp [superviseMove, superviseStep, hpc]
      · simp [superviseMove, Supervisor.forks, ChildSystem.waits, hpc]
  | drain round =>
      by_cases hround : round < 30
      · refine h.reap (s.reaps input) ?_ ?_ hnot
        · simp [superviseMove, superviseStep, hpc, hround]
        · simp [superviseMove, Supervisor.forks, ChildSystem.waits, hpc]
      · refine h.unchanged ?_ ?_ hnot
        · simp [superviseMove, superviseStep, hpc, hround]
        · simp [superviseMove, Supervisor.forks, ChildSystem.waits, ChildSystem.reaps, hpc, hround,
            removeAll]
  | respawn i => exact h.respawn hphase hpc input
  | kill i =>
      have hwait : (if input.waitOk then s.waits.toList else []) = [] := by
        cases hwaits : s.waits with
        | none => simp
        | some pid => simp [hok (by simp [hwaits])]
      refine h.unchanged ?_ ?_ hnot
      · simp only [superviseMove, superviseStep, hpc]
        split <;> rfl
      · simp [superviseMove, Supervisor.forks, ChildSystem.reaps, hpc, hwait, removeAll]
  | _ =>
      refine h.unchanged ?_ ?_ hnot
      · simp only [superviseMove, superviseStep, hpc]
        repeat' split
        all_goals rfl
      · simp [superviseMove, Supervisor.forks, ChildSystem.waits, ChildSystem.reaps, hpc, removeAll]

theorem ChildInv.step (h : ChildInv s) (a : ChildAction) (hok : ReapedBefore s a) :
    ChildInv (childStep conf s a) := by
  cases a with
  | master input =>
      simp only [childStep]
      cases hphase : s.phase with
      | launching i => exact h.launch hphase input
      | supervising => exact h.supervise hphase input (hok hphase)
      | returned => exact h
  | exit pid =>
      simp only [childStep]
      split
      · exact h.frame rfl h.children h.own fun _ hi => hi
      · exact h
  | quit => exact h.frame rfl h.children h.own fun _ hi => hi

theorem signalled_mem (h : (ws[i]?.filter WorkerSlot.signalled).map WorkerSlot.pid = some pid) :
    pid ∈ alivePids ws := by
  obtain ⟨w, hw, rfl⟩ := Option.map_eq_some_iff.mp h
  obtain ⟨hslot, hsignalled⟩ := Option.filter_eq_some_iff.mp hw
  simp only [WorkerSlot.signalled, decide_eq_true_eq] at hsignalled
  exact mem_alivePids.mpr ⟨w, List.mem_of_getElem? hslot, hsignalled.1, rfl⟩

theorem waits_mem (h : s.waits = some pid) : pid ∈ alivePids s.sup.workers := by
  unfold ChildSystem.waits at h
  cases hpc : s.sup.pc with
  | kill i =>
      rw [hpc] at h
      exact signalled_mem h
  | _ =>
      rw [hpc] at h
      cases h

/-- Every `kill` and every blocking `waitpid` is for an unreaped child. -/
theorem ChildInv.targets (h : ChildInv s) : ∀ pid ∈ s.targets, pid ∈ s.children := by
  intro pid hpid
  refine h.own ?_
  unfold ChildSystem.targets at hpid
  split at hpid
  · exact signalled_mem (Option.mem_toList.mp hpid)
  · exact waits_mem (Option.mem_toList.mp hpid)
  · cases hpid

/-- From states of the invariant, a step is sound exactly if it meets the condition. -/
theorem ChildInv.sound_iff (h : ChildInv s) (a : ChildAction) :
    ChildSound conf s a ↔ ReapedBefore s a := by
  constructor
  · rintro ⟨-, hown⟩
    cases a with
    | master input =>
        intro hphase hwaits
        by_contra hwaitOk
        obtain ⟨pid, hpid⟩ := Option.isSome_iff_exists.mp hwaits
        have hok : input.waitOk = true := by simpa using hwaitOk
        obtain ⟨i, hpc⟩ : ∃ i, s.sup.pc = .kill i := by
          unfold ChildSystem.waits at hpid
          cases hpc : s.sup.pc with
          | kill i => exact ⟨i, rfl⟩
          | _ =>
              rw [hpc] at hpid
              cases hpid
        -- the slot is still alive, and its child has just been reaped
        have hworkers : (childStep conf s (.master input)).sup.workers = s.sup.workers := by
          simp only [childStep, hphase, superviseMove, superviseStep, hpc]
          split <;> rfl
        have hchildren : (childStep conf s (.master input)).children = s.children.erase pid := by
          simp [childStep, hphase, superviseMove, Supervisor.forks, ChildSystem.reaps, hpc, hok,
            hpid, removeAll]
        obtain ⟨w, hw, halive, rfl⟩ := mem_alivePids.mp (waits_mem hpid)
        have hmem := hown.child w (hworkers ▸ hw) halive
        rw [hchildren] at hmem
        exact (h.children.mem_erase_iff.mp hmem).1 rfl
    | _ => trivial
  · intro hok
    exact ⟨fun _ _ => h.targets, (h.step a hok).ownChildren⟩

theorem childInit_inv {others : List Nat} (hothers : others.Nodup) :
    ChildInv (childInit conf others) := by
  have hdead : ∀ w ∈ List.replicate conf.count (⟨0, 0, false⟩ : WorkerSlot), w.alive = false := by
    intro w hw
    rw [List.eq_of_mem_replicate hw]
  have hnone : alivePids (childInit conf others).sup.workers = [] := by
    simp [childInit, alivePids]
  refine ⟨?_, hothers, ?_, ?_⟩
  · rw [hnone]
    exact List.nodup_nil
  · rw [hnone]
    exact List.nil_subset _
  · intro i _ j w _ hw
    exact hdead w (List.mem_of_getElem? hw)

/--
For every configuration, any other children of the process, and every sequence of
child exits, steps of `nv_core_workers_launch` and `nv_core_master_supervise` and
quit requests: at every step the alive slots hold distinct unreaped children and
each `kill` and each blocking `waitpid` is for one, exactly if no worker is reaped
by the last loop.
-/
theorem nvCoreMasterSupervise_own_children_iff
    (conf : WorkerConf)
    (others : List Nat)
    (hothers : others.Nodup)
    (as : List ChildAction) :
    Along (childStep conf) (ChildSound conf) (childInit conf others) as ↔
      Along (childStep conf) ReapedBefore (childInit conf others) as :=
  along_iff_along_of_inv (childInit_inv hothers)
    (fun _ a h hok => h.step a hok) (fun _ a h => h.sound_iff a) as

end Invariant

/-- A step in which no system call has anything to return. -/
def quietStep : ChildAction := .master ⟨[], none, true⟩

/-- The workers are launched and supervised. -/
def launchTwo : List ChildAction :=
  [.master ⟨[], some 10, true⟩, .master ⟨[], some 11, true⟩, quietStep, quietStep]

/-- The first worker exits and is replaced; then the master is asked to stop. -/
theorem nvCoreMasterSupervise_own_children_respawn :
    Along (childStep twoWorkers) (ChildSound twoWorkers) (childInit twoWorkers [])
      (launchTwo ++ [.exit 10, quietStep, .master ⟨[10], none, true⟩,
        .master ⟨[], some 12, true⟩, quietStep, quietStep, quietStep, .quit, quietStep, quietStep,
        quietStep, quietStep]) :=
  (nvCoreMasterSupervise_own_children_iff twoWorkers [] List.nodup_nil _).mpr
    (by decide +kernel)

/-- Neither worker has exited when the last loop gets to the first one. -/
def stubbornWorkers : List ChildAction :=
  launchTwo ++ [.quit] ++ List.replicate 36 quietStep

/-- The first worker is killed and reaped, and its slot stays alive. -/
theorem killed_worker_stays_alive :
    (run (childStep twoWorkers) (childInit twoWorkers []) stubbornWorkers).sup.workers =
        [⟨10, 1, true⟩, ⟨11, 2, true⟩] ∧
      (run (childStep twoWorkers) (childInit twoWorkers []) stubbornWorkers).children = [11] ∧
      ¬ OwnChildren (run (childStep twoWorkers) (childInit twoWorkers []) stubbornWorkers) := by
  have hworkers : (run (childStep twoWorkers) (childInit twoWorkers []) stubbornWorkers).sup.workers =
      [⟨10, 1, true⟩, ⟨11, 2, true⟩] := by decide +kernel
  have hchildren : (run (childStep twoWorkers) (childInit twoWorkers []) stubbornWorkers).children =
      [11] := by decide +kernel
  refine ⟨hworkers, hchildren, ?_⟩
  intro hown
  have hmem := hown.child ⟨10, 1, true⟩ (by rw [hworkers]; simp) rfl
  rw [hchildren] at hmem
  simp at hmem

end Libnv.Worker
