import Mathlib.Data.Fintype.Basic
import Mathlib.Logic.Function.Basic
import Libnv.Lib.CText
import Libnv.Lib.Transition

/-!
# The pid file and the instances that share it

Instances of `nv_core_run` use one `pid_file` and one `instance_lock`.  Every
step of `nv_core_startup_init` may fail, and every failure goes through the
whole of `nv_core_shutdown`, which unlinks the file at `pid_file` whether or not
this instance has created it.  `nv_core_pidfile_create` returns `NV_OK` even if
it could not empty or write the file.

Files are inodes; `path` is the one that the name `pid_file` leads to.  The
abstract socket of the instance lock has at most one owner.  The fcntl lock on
an inode belongs to one process and goes when that process closes the file.
-/

namespace Libnv.Instance

open Transition

universe u

section System

/-- The steps of `nv_core_startup_init` that can fail. -/
inductive StartupStep where
  | loadConfig
  | validate
  | daemon
  | logInit
  | instanceLock
  | pidfile
  | loadlibs
  | baseInit
deriving DecidableEq

def StartupStep.next : StartupStep → Option StartupStep
  | .loadConfig => some .validate
  | .validate => some .daemon
  | .daemon => some .logInit
  | .logInit => some .instanceLock
  | .instanceLock => some .pidfile
  | .pidfile => some .loadlibs
  | .loadlibs => some .baseInit
  | .baseInit => none

/-- Program points of `nv_core_run`; `ino` is the file behind `fd` in `nv_core_pidfile_create`. -/
inductive RunPc where
  | notRunning
  | startup (step : StartupStep)
  /-- `fcntl(fd, F_SETLK, &lock)`. -/
  | setLock (ino : Nat)
  /-- `ftruncate(fd, 0)`. -/
  | truncate (ino : Nat)
  /-- `write(fd, buf, len)`. -/
  | write (ino : Nat)
  /-- After `nv_core_startup_init`. -/
  | running
  /-- `nv_core_shutdown`, before `close(ctx->pid_fd)`. -/
  | closePid
  /-- `unlink(ctx->opts.pid_file)`. -/
  | unlinkPid
  /-- `nv_core_instance_lock_release`. -/
  | releaseLock
deriving DecidableEq

/-- The part of `nv_core_ctx_t` that matters; `pidFd` is the file behind `pid_fd`. -/
structure InstanceCtx where
  pc : RunPc
  pidFd : Option Nat
  /-- `instance_lock_fd >= 0`. -/
  lockFd : Bool
deriving DecidableEq

/-- The file system, the locks and the instances. -/
structure Machine (Inst : Type u) where
  path : Option Nat
  contents : Nat → List UInt8
  nextInode : Nat
  fileLock : Nat → Option Inst
  socket : Option Inst
  inst : Inst → InstanceCtx

/-- How a call ends: a `write` that fails has still written some bytes. -/
inductive Outcome where
  | ok
  | fails (written : Nat)
deriving DecidableEq

/-- An instance starts, takes its next step, or is told to quit. -/
inductive MachineAction (Inst : Type u) where
  | start (i : Inst)
  | step (i : Inst) (outcome : Outcome)
  | quit (i : Inst)

/-- `snprintf(buf, sizeof(buf), "%d\n", (int)getpid())`. -/
def pidText (pid : Nat) : List UInt8 :=
  (CText.lit (toString pid ++ "\n")).bytes

variable {Inst : Type u} [DecidableEq Inst]

/-- The instance goes to another point. -/
def Machine.goto (m : Machine Inst) (i : Inst) (pc : RunPc) : Machine Inst :=
  { m with inst := Function.update m.inst i { m.inst i with pc := pc } }

/-- `nv_core_instance_lock_acquire`, when the socket could be created. -/
def nvCoreInstanceLockAcquire (m : Machine Inst) (i : Inst) : Machine Inst :=
  match m.socket with
  | none =>
      { m with
        socket := some i
        inst := Function.update m.inst i
          { m.inst i with pc := .startup .pidfile, lockFd := true } }
  | some _ => m.goto i .closePid

/-- `open(ctx->opts.pid_file, O_RDWR | O_CREAT, 0644)`. -/
def openPidfile (m : Machine Inst) (i : Inst) : Machine Inst :=
  match m.path with
  | some ino => m.goto i (.setLock ino)
  | none =>
      { m with
        path := some m.nextInode
        contents := Function.update m.contents m.nextInode []
        nextInode := m.nextInode + 1 }.goto i (.setLock m.nextInode)

/-- `F_SETLK`: a lock of another process makes it fail. -/
def lockPidfile (m : Machine Inst) (i : Inst) (ino : Nat) : Machine Inst :=
  match m.fileLock ino with
  | none => { m with fileLock := Function.update m.fileLock ino (some i) }.goto i (.truncate ino)
  | some j => if j = i then m.goto i (.truncate ino) else m.goto i .closePid

/-- The end of `nv_core_pidfile_create`: `ctx->pid_fd = fd`. -/
def keepPidfile (m : Machine Inst) (i : Inst) (ino : Nat) : Machine Inst :=
  { m with
    inst := Function.update m.inst i
      { m.inst i with pc := .startup .loadlibs, pidFd := some ino } }

/-- `write` at the start of the file. -/
def overwrite (bytes old : List UInt8) : List UInt8 :=
  bytes ++ old.drop bytes.length

/-- `close(ctx->pid_fd)`, which gives up the fcntl lock on the file. -/
def closePidfile (m : Machine Inst) (i : Inst) : Machine Inst :=
  match (m.inst i).pidFd with
  | none => m.goto i .unlinkPid
  | some ino =>
      { m with
        fileLock := if m.fileLock ino = some i then Function.update m.fileLock ino none
          else m.fileLock
        inst := Function.update m.inst i { m.inst i with pc := .unlinkPid, pidFd := none } }

def nvCoreInstanceLockRelease (m : Machine Inst) (i : Inst) : Machine Inst :=
  { m with
    socket := if (m.inst i).lockFd then none else m.socket
    inst := Function.update m.inst i { m.inst i with pc := .notRunning, lockFd := false } }

/-- The next step of an instance; `pid` is what `getpid` returns in it. -/
def instanceStep (pid : Inst → Nat) (m : Machine Inst) (i : Inst) (outcome : Outcome) :
    Machine Inst :=
  match (m.inst i).pc, outcome with
  | .notRunning, _ | .running, _ => m
  | .startup _, .fails _ => m.goto i .closePid
  | .startup .instanceLock, .ok => nvCoreInstanceLockAcquire m i
  | .startup .pidfile, .ok => openPidfile m i
  | .startup step, .ok =>
      match step.next with
      | some next => m.goto i (.startup next)
      | none => m.goto i .running
  | .setLock _, .fails _ => m.goto i .closePid
  | .setLock ino, .ok => lockPidfile m i ino
  | .truncate ino, .fails _ => keepPidfile m i ino
  | .truncate ino, .ok =>
      { m with contents := Function.update m.contents ino [] }.goto i (.write ino)
  | .write ino, .fails written =>
      keepPidfile { m with
        contents := Function.update m.contents ino
          (overwrite ((pidText (pid i)).take written) (m.contents ino)) } i ino
  | .write ino, .ok =>
      keepPidfile { m with
        contents := Function.update m.contents ino
          (overwrite (pidText (pid i)) (m.contents ino)) } i ino
  | .closePid, _ => closePidfile m i
  | .unlinkPid, _ => { m with path := none }.goto i .releaseLock
  | .releaseLock, _ => nvCoreInstanceLockRelease m i

def machineStep (pid : Inst → Nat) (m : Machine Inst) : MachineAction Inst → Machine Inst
  | .start i => if (m.inst i).pc = .notRunning then m.goto i (.startup .loadConfig) else m
  | .step i outcome => instanceStep pid m i outcome
  | .quit i => if (m.inst i).pc = .running then m.goto i .closePid else m

/-- No instance runs; a pid file may be left from before. -/
def machineInit (path : Option Nat) (contents : Nat → List UInt8) (nextInode : Nat) :
    Machine Inst where
  path := path
  contents := contents
  nextInode := nextInode
  fileLock := fun _ => none
  socket := none
  inst := fun _ => ⟨.notRunning, none, false⟩

end System

section Spec

variable {Inst : Type u}

/-- `nv_core_pidfile_create` has returned `NV_OK` and `nv_core_shutdown` is not entered yet. -/
def RunPc.owns : RunPc → Bool
  | .startup .loadlibs | .startup .baseInit | .running => true
  | .startup _ | .notRunning | .setLock _ | .truncate _ | .write _ => false
  | .closePid | .unlinkPid | .releaseLock => false

/-- Every instance that owns the pid file finds its pid in it. -/
def PidfileBelongs (pid : Inst → Nat) (m : Machine Inst) : Prop :=
  ∀ i, (m.inst i).pc.owns = true → ∃ ino, m.path = some ino ∧ m.contents ino = pidText (pid i)

/-- The pid file is open: from `open` in `nv_core_pidfile_create` to `nv_core_shutdown`. -/
def RunPc.uses : RunPc → Bool
  | .setLock _ | .truncate _ | .write _ => true
  | pc => pc.owns

/-- What `Careful` asks of a step at a point. -/
def RunPc.Careful (m : Machine Inst) (i : Inst) (outcome : Outcome) : RunPc → Prop
  | .unlinkPid => ∀ j, j ≠ i → (m.inst j).pc.uses = false
  | .truncate _ | .write _ => outcome = .ok
  | .notRunning | .startup _ | .setLock _ | .running | .closePid | .releaseLock => True

/--
An instance unlinks the pid file only while no other one uses it, and the file
can be emptied and written.
-/
def Careful (m : Machine Inst) : MachineAction Inst → Prop
  | .step i outcome => (m.inst i).pc.Careful m i outcome
  | .start _ | .quit _ => True

instance [Fintype Inst] [DecidableEq Inst] (m : Machine Inst) (i : Inst) (outcome : Outcome) :
    ∀ pc : RunPc, Decidable (pc.Careful m i outcome)
  | .unlinkPid => inferInstanceAs (Decidable (∀ j, j ≠ i → (m.inst j).pc.uses = false))
  | .truncate _ | .write _ => inferInstanceAs (Decidable (outcome = .ok))
  | .notRunning | .startup _ | .setLock _ | .running | .closePid | .releaseLock =>
      inferInstanceAs (Decidable True)

instance [Fintype Inst] [DecidableEq Inst] (m : Machine Inst) : ∀ a, Decidable (Careful m a)
  | .step i outcome => inferInstanceAs (Decidable ((m.inst i).pc.Careful m i outcome))
  | .start _ | .quit _ => inferInstanceAs (Decidable True)

end Spec

section Invariant

variable {Inst : Type u} {pid : Inst → Nat} {m m' : Machine Inst}

/-- The instance has acquired the instance lock and not entered `nv_core_shutdown`. -/
def RunPc.afterLock : RunPc → Bool
  | .startup .pidfile => true
  | pc => pc.uses

def RunPc.FileOk (path : Option Nat) (contents : Nat → List UInt8) (text : List UInt8) :
    RunPc → Prop
  | .setLock ino | .truncate ino => path = some ino
  | .write ino => path = some ino ∧ contents ino = []
  | pc => pc.owns = true → ∃ ino, path = some ino ∧ contents ino = text

/-- One instance holds the instance lock; the pid file is its own. -/
structure MachineInv (pid : Inst → Nat) (m : Machine Inst) : Prop where
  socket : ∀ i, (m.inst i).lockFd = true → m.socket = some i
  locked : ∀ i, (m.inst i).pc.afterLock = true → (m.inst i).lockFd = true
  file : ∀ i, (m.inst i).pc.FileOk m.path m.contents (pidText (pid i))

theorem RunPc.FileOk.of_not_uses {pc : RunPc} (h : pc.uses = false) (path : Option Nat)
    (contents : Nat → List UInt8) (text : List UInt8) : pc.FileOk path contents text := by
  cases pc with
  | startup step => cases step <;> simp_all [FileOk, uses, owns]
  | _ => simp_all [FileOk, uses, owns]

theorem MachineInv.belongs (h : MachineInv pid m) : PidfileBelongs pid m := by
  intro i howns
  have hfile := h.file i
  cases hpc : (m.inst i).pc with
  | startup step =>
      rw [hpc] at howns hfile
      exact hfile howns
  | running =>
      rw [hpc] at hfile
      exact hfile rfl
  | _ =>
      rw [hpc] at howns
      cases howns

/-- While an instance holds the lock, no other one is past its acquisition. -/
theorem MachineInv.alone (h : MachineInv pid m) {i : Inst} (hlock : (m.inst i).lockFd = true)
    (j : Inst) (hj : j ≠ i) : (m.inst j).pc.uses = false := by
  by_contra huses
  have hafter : (m.inst j).pc.afterLock = true := by
    rw [Bool.not_eq_false] at huses
    unfold RunPc.afterLock
    split
    · rfl
    · exact huses
  have hsame := (h.socket i hlock).symm.trans (h.socket j (h.locked j hafter))
  exact hj (Option.some.inj hsame).symm

/-- A step of one instance: what it must bring about for itself and leave to the others. -/
theorem MachineInv.moves (h : MachineInv pid m) (i : Inst)
    (hinst : ∀ j, j ≠ i → m'.inst j = m.inst j)
    (hsocket : ∀ j, (m'.inst j).lockFd = true → m'.socket = some j)
    (hlocked : (m'.inst i).pc.afterLock = true → (m'.inst i).lockFd = true)
    (hfile : (m'.inst i).pc.FileOk m'.path m'.contents (pidText (pid i)))
    (hothers : (m'.path = m.path ∧ m'.contents = m.contents) ∨
      ∀ j, j ≠ i → (m.inst j).pc.uses = false) : MachineInv pid m' where
  socket := hsocket
  locked j hj := by
    by_cases hji : j = i
    · subst hji
      exact hlocked hj
    · rw [hinst j hji] at hj ⊢
      exact h.locked j hj
  file j := by
    by_cases hji : j = i
    · subst hji
      exact hfile
    · rw [hinst j hji]
      rcases hothers with ⟨hpath, hcontents⟩ | hothers
      · rw [hpath, hcontents]
        exact h.file j
      · exact .of_not_uses (hothers j hji) _ _ _

end Invariant

section Steps

variable {Inst : Type u} [DecidableEq Inst] {pid : Inst → Nat} {m : Machine Inst} {i : Inst}
variable (h : MachineInv pid m)
include h

/-- An instance goes on, having changed the file if no other one uses it. -/
theorem MachineInv.file_goto {m₁ : Machine Inst} {pc : RunPc}
    (hinst : m₁.inst = m.inst) (hsocket : m₁.socket = m.socket)
    (hlocked : pc.afterLock = true → (m.inst i).lockFd = true)
    (hfile : pc.FileOk m₁.path m₁.contents (pidText (pid i)))
    (hothers : (m₁.path = m.path ∧ m₁.contents = m.contents) ∨
      ∀ j, j ≠ i → (m.inst j).pc.uses = false) : MachineInv pid (m₁.goto i pc) := by
  refine h.moves i (fun j hj => ?_) (fun j hj => ?_) ?_ ?_ hothers
  · simp [Machine.goto, hj, hinst]
  · refine hsocket.trans (h.socket j ?_)
    rcases eq_or_ne j i with rfl | hne
    · simpa [Machine.goto, hinst] using hj
    · simpa [Machine.goto, hne, hinst] using hj
  · simpa [Machine.goto, hinst] using hlocked
  · simpa [Machine.goto] using hfile

/-- An instance goes on without touching the file or the locks. -/
theorem MachineInv.goto {pc : RunPc} (hlocked : pc.afterLock = true → (m.inst i).lockFd = true)
    (hfile : pc.FileOk m.path m.contents (pidText (pid i))) : MachineInv pid (m.goto i pc) :=
  h.file_goto rfl rfl hlocked hfile (Or.inl ⟨rfl, rfl⟩)

/-- An instance goes to a point at which it has no claim to the file. -/
theorem MachineInv.goto_outside (i : Inst) {pc : RunPc} (hpc : pc.afterLock = false) :
    MachineInv pid (m.goto i pc) := by
  have huses : pc.uses = false := by
    cases pc with
    | startup step => cases step <;> first | rfl | cases hpc
    | _ => first | rfl | cases hpc
  refine h.goto (fun hafter => ?_) (.of_not_uses huses _ _ _)
  rw [hpc] at hafter
  cases hafter

theorem MachineInv.acquire (i : Inst) : MachineInv pid (nvCoreInstanceLockAcquire m i) := by
  unfold nvCoreInstanceLockAcquire
  split
  case h_2 => exact h.goto_outside i rfl
  case h_1 hfree =>
    refine h.moves i (fun j hj => Function.update_of_ne hj _ _) (fun j hj => ?_) ?_ ?_
      (Or.inl ⟨rfl, rfl⟩)
    · dsimp only at hj ⊢
      rcases eq_or_ne j i with rfl | hne
      · rfl
      · rw [Function.update_of_ne hne] at hj
        have hheld := h.socket j hj
        rw [hfree] at hheld
        cases hheld
    · dsimp only
      rw [Function.update_self]
      exact fun _ => rfl
    · dsimp only
      rw [Function.update_self]
      exact .of_not_uses rfl _ _ _

theorem MachineInv.openPidfile (hlock : (m.inst i).lockFd = true) :
    MachineInv pid (openPidfile m i) := by
  unfold Instance.openPidfile
  split
  case h_1 ino hpath => exact h.goto (fun _ => hlock) hpath
  case h_2 => exact h.file_goto rfl rfl (fun _ => hlock) rfl (Or.inr (h.alone hlock))

theorem MachineInv.lockPidfile {ino : Nat} (hlock : (m.inst i).lockFd = true)
    (hpath : m.path = some ino) : MachineInv pid (lockPidfile m i ino) := by
  unfold Instance.lockPidfile
  split
  · exact h.file_goto rfl rfl (fun _ => hlock) hpath (Or.inl ⟨rfl, rfl⟩)
  · split
    · exact h.goto (fun _ => hlock) hpath
    · exact h.goto_outside i rfl

/-- `nv_core_pidfile_create` returns with the pid in the file. -/
theorem MachineInv.keepPidfile {ino : Nat} {contents : Nat → List UInt8}
    (hlock : (m.inst i).lockFd = true) (hpath : m.path = some ino)
    (htext : contents ino = pidText (pid i)) :
    MachineInv pid (keepPidfile { m with contents := contents } i ino) := by
  refine h.moves i (fun j hj => Function.update_of_ne hj _ _) (fun j hj => h.socket j ?_) ?_ ?_
    (Or.inr (h.alone hlock))
  · rcases eq_or_ne j i with rfl | hne
    · exact hlock
    · simpa [Instance.keepPidfile, hne] using hj
  · simpa [Instance.keepPidfile] using fun _ => hlock
  · simp only [Instance.keepPidfile, Function.update_self]
    exact fun _ => ⟨ino, hpath, htext⟩

theorem MachineInv.closePidfile (i : Inst) : MachineInv pid (closePidfile m i) := by
  unfold Instance.closePidfile
  split
  case h_1 => exact h.goto_outside i rfl
  case h_2 ino hfd =>
    refine h.moves i (fun j hj => Function.update_of_ne hj _ _) (fun j hj => h.socket j ?_) ?_ ?_
      (Or.inl ⟨rfl, rfl⟩)
    · rcases eq_or_ne j i with rfl | hne
      · simpa using hj
      · simpa [hne] using hj
    · simp [RunPc.afterLock, RunPc.uses, RunPc.owns]
    · simp only [Function.update_self]
      exact .of_not_uses rfl _ _ _

theorem MachineInv.release (i : Inst) : MachineInv pid (nvCoreInstanceLockRelease m i) := by
  refine h.moves i (fun j hj => Function.update_of_ne hj _ _) (fun j hj => ?_) ?_ ?_
    (Or.inl ⟨rfl, rfl⟩)
  · rcases eq_or_ne j i with rfl | hne
    · simp [nvCoreInstanceLockRelease] at hj
    · have hheld : m.socket = some j := h.socket j (by
        simpa [nvCoreInstanceLockRelease, hne] using hj)
      have hfree : (m.inst i).lockFd = false := by
        by_contra hlock
        rw [Bool.not_eq_false] at hlock
        exact hne (Option.some.inj (hheld.symm.trans (h.socket i hlock)))
      simp [nvCoreInstanceLockRelease, hfree, hheld]
  · simp [nvCoreInstanceLockRelease, RunPc.afterLock, RunPc.uses, RunPc.owns]
  · simp only [nvCoreInstanceLockRelease, Function.update_self]
    exact .of_not_uses rfl _ _ _

/-- A step of `nv_core_startup_init` that does not touch the lock or the file succeeds. -/
theorem MachineInv.startup_next {step : StartupStep}
    (hpc : (m.inst i).pc = .startup step) (hlock : step ≠ .instanceLock) (hpid : step ≠ .pidfile) :
    MachineInv pid
      (match step.next with
        | some next => m.goto i (.startup next)
        | none => m.goto i .running) := by
  have hfile := h.file i
  have hlocked := h.locked i
  rw [hpc] at hfile hlocked
  cases step with
  | loadConfig => exact h.goto_outside i rfl
  | validate => exact h.goto_outside i rfl
  | daemon => exact h.goto_outside i rfl
  | logInit => exact h.goto_outside i rfl
  | instanceLock => exact absurd rfl hlock
  | pidfile => exact absurd rfl hpid
  | loadlibs => exact h.goto (fun _ => hlocked rfl) fun _ => hfile rfl
  | baseInit => exact h.goto (fun _ => hlocked rfl) fun _ => hfile rfl

theorem MachineInv.instanceStep (outcome : Outcome) (hcareful : (m.inst i).pc.Careful m i outcome) :
    MachineInv pid (instanceStep pid m i outcome) := by
  have hfile := h.file i
  have hlocked := h.locked i
  unfold Instance.instanceStep
  cases hpc : (m.inst i).pc with
  | notRunning => exact h
  | running => exact h
  | startup step =>
      rw [hpc] at hlocked
      cases outcome with
      | fails written => exact h.goto_outside i rfl
      | ok =>
          by_cases hlock : step = .instanceLock
          · subst hlock
            exact h.acquire i
          · by_cases hpid : step = .pidfile
            · subst hpid
              exact h.openPidfile (hlocked rfl)
            · have hnext := h.startup_next hpc hlock hpid
              cases step <;> first | exact hnext | contradiction
  | setLock ino =>
      rw [hpc] at hfile hlocked
      cases outcome with
      | fails written => exact h.goto_outside i rfl
      | ok => exact h.lockPidfile (hlocked rfl) hfile
  | truncate ino =>
      rw [hpc] at hfile hlocked hcareful
      cases hcareful
      exact h.file_goto rfl rfl (fun _ => hlocked rfl) ⟨hfile, Function.update_self _ _ _⟩
        (Or.inr (h.alone (hlocked rfl)))
  | write ino =>
      rw [hpc] at hfile hlocked hcareful
      cases hcareful
      refine h.keepPidfile (hlocked rfl) hfile.1 ?_
      rw [Function.update_self, hfile.2, overwrite]
      simp
  | closePid => exact h.closePidfile i
  | unlinkPid =>
      rw [hpc] at hcareful
      exact h.file_goto rfl rfl (fun hafter => by cases hafter) (.of_not_uses rfl _ _ _)
        (Or.inr hcareful)
  | releaseLock => exact h.release i

theorem MachineInv.step (a : MachineAction Inst) (hcareful : Careful m a) :
    MachineInv pid (machineStep pid m a) := by
  cases a with
  | start i =>
      simp only [machineStep]
      split
      · exact h.goto_outside i rfl
      · exact h
  | step i outcome => exact h.instanceStep outcome hcareful
  | quit i =>
      simp only [machineStep]
      split
      · exact h.goto_outside i rfl
      · exact h

end Steps

theorem machineInv_init {Inst : Type u} (pid : Inst → Nat) (path : Option Nat)
    (contents : Nat → List UInt8) (nextInode : Nat) :
    MachineInv pid (machineInit path contents nextInode) where
  socket i hi := by cases hi
  locked i hi := by cases hi
  file i := .of_not_uses rfl _ _ _

/--
In every run in which the pid file is unlinked only while no other instance uses
it, and can be emptied and written, it holds the pid of the instance that owns it.
-/
theorem nvCore_pidfile_belongs
    {Inst : Type u}
    [DecidableEq Inst]
    (pid : Inst → Nat)
    (path : Option Nat)
    (contents : Nat → List UInt8)
    (nextInode : Nat)
    (as : List (MachineAction Inst))
    (hcareful : Along (machineStep pid) Careful (machineInit path contents nextInode) as) :
    PidfileBelongs pid (run (machineStep pid) (machineInit path contents nextInode) as) := by
  have hinv : MachineInv pid (run (machineStep pid) (machineInit path contents nextInode) as) :=
    @run_invariant_of_along _ _ _ (MachineInv pid) _ _ _ (fun _ a h ha => h.step a ha)
      (machineInv_init pid path contents nextInode) hcareful
  exact hinv.belongs

attribute [local instance] neZero_two in
/-- The first instance starts: eight steps, four of them in `nv_core_pidfile_create`. -/
def startFirst : List (MachineAction (Fin 2)) :=
  .start 0 :: List.replicate 11 (.step 0 .ok)

attribute [local instance] neZero_two in
/-- The second instance finds the instance lock taken and shuts down. -/
def startSecond : List (MachineAction (Fin 2)) :=
  .start 1 :: List.replicate 8 (.step 1 .ok)

def twoPids (i : Fin 2) : Nat := 100 + i

attribute [local instance] neZero_two in
/--
The second instance finds the lock taken, but has not unlinked the file when the first one
quits.  It ends only then, and starts again.
-/
def takeTurns : List (MachineAction (Fin 2)) :=
  startFirst ++ MachineAction.start 1 :: List.replicate 6 (MachineAction.step 1 .ok) ++
    MachineAction.quit 0 :: List.replicate 3 (MachineAction.step 0 .ok) ++
    List.replicate 2 (MachineAction.step 1 .ok) ++
    MachineAction.start 1 :: List.replicate 11 (MachineAction.step 1 .ok)

/-- Two instances in turn, over a file that was left behind. -/
theorem instances_own_pidfile_in_turn :
    ((run (machineStep twoPids) (machineInit (some 0) (fun _ => pidText 99) 1)
        takeTurns).inst 1).pc = .running ∧
      PidfileBelongs twoPids (run (machineStep twoPids)
        (machineInit (some 0) (fun _ => pidText 99) 1) takeTurns) :=
  ⟨by decide +kernel, nvCore_pidfile_belongs twoPids (some 0) (fun _ => pidText 99) 1 takeTurns
    (by decide +kernel)⟩

/-- The second instance removes the pid file of the first, which goes on running. -/
theorem second_instance_unlinks_pidfile :
    ((run (machineStep twoPids) (machineInit none (fun _ => []) 0)
        (startFirst ++ startSecond)).inst 0).pc = .running ∧
      (run (machineStep twoPids) (machineInit none (fun _ => []) 0)
        (startFirst ++ startSecond)).path = none := by
  decide +kernel

section Exclusion

variable {Inst : Type u}

/-- The instance has the instance lock, or is at a point where it needs it. -/
def InstanceCtx.Holds (c : InstanceCtx) : Prop := c.lockFd = true ∨ c.pc.afterLock = true

/-- Whoever holds the lock is bound to its socket. -/
def LockInv (m : Machine Inst) : Prop := ∀ i, (m.inst i).Holds → m.socket = some i

variable [DecidableEq Inst] {m m' : Machine Inst} {i : Inst} (h : LockInv m)
include h

/-- A step of one instance, which holds the lock after it only if it did so before. -/
theorem LockInv.moves {c : InstanceCtx} (hsocket : m'.socket = m.socket)
    (hinst : m'.inst = Function.update m.inst i c) (hc : c.Holds → (m.inst i).Holds) :
    LockInv m' := by
  intro j hj
  rw [hsocket]
  refine h j ?_
  rw [hinst] at hj
  rcases eq_or_ne j i with rfl | hne
  · exact hc (by rwa [Function.update_self] at hj)
  · rwa [Function.update_of_ne hne] at hj

theorem LockInv.acquire (i : Inst) : LockInv (nvCoreInstanceLockAcquire m i) := by
  unfold nvCoreInstanceLockAcquire
  cases hfree : m.socket with
  | some j => exact h.moves rfl rfl (Or.imp_right nofun)
  | none =>
      intro j hj
      rcases eq_or_ne j i with rfl | hne
      · rfl
      · dsimp only at hj
        rw [Function.update_of_ne hne] at hj
        cases hfree.symm.trans (h j hj)

theorem LockInv.release (i : Inst) : LockInv (nvCoreInstanceLockRelease m i) := by
  intro j hj
  rcases eq_or_ne j i with rfl | hne
  · simp [nvCoreInstanceLockRelease, InstanceCtx.Holds, RunPc.afterLock, RunPc.uses,
      RunPc.owns] at hj
  · have hheld := h j (by simpa [nvCoreInstanceLockRelease, hne] using hj)
    have hfree : ¬(m.inst i).lockFd = true := fun hlock =>
      hne (Option.some.inj (hheld.symm.trans (h i (Or.inl hlock))))
    simp [nvCoreInstanceLockRelease, hfree, hheld]

theorem LockInv.instanceStep (pid : Inst → Nat) (outcome : Outcome) :
    LockInv (instanceStep pid m i outcome) := by
  have hafter : ∀ pc, (m.inst i).pc = pc → pc.afterLock = true → (m.inst i).Holds :=
    fun _ hpc hlock => Or.inr (hpc ▸ hlock)
  unfold Instance.instanceStep
  cases hpc : (m.inst i).pc with
  | notRunning => exact h
  | running => exact h
  | startup step =>
      cases outcome with
      | fails written => exact h.moves rfl rfl (Or.imp_right nofun)
      | ok =>
          cases step with
          | instanceLock => exact h.acquire i
          | pidfile =>
              simp only [openPidfile]
              split <;> exact h.moves rfl rfl fun _ => hafter _ hpc rfl
          | loadlibs => exact h.moves rfl rfl fun _ => hafter _ hpc rfl
          | baseInit => exact h.moves rfl rfl fun _ => hafter _ hpc rfl
          | _ => exact h.moves rfl rfl (Or.imp_right nofun)
  | setLock ino =>
      cases outcome with
      | fails written => exact h.moves rfl rfl (Or.imp_right nofun)
      | ok =>
          simp only [lockPidfile]
          split
          · exact h.moves rfl rfl fun _ => hafter _ hpc rfl
          · split <;> exact h.moves rfl rfl fun _ => hafter _ hpc rfl
  | truncate ino => cases outcome <;> exact h.moves rfl rfl fun _ => hafter _ hpc rfl
  | write ino => cases outcome <;> exact h.moves rfl rfl fun _ => hafter _ hpc rfl
  | closePid =>
      simp only [closePidfile]
      split <;> exact h.moves rfl rfl (Or.imp_right nofun)
  | unlinkPid => exact h.moves rfl rfl (Or.imp_right nofun)
  | releaseLock => exact h.release i

theorem LockInv.step (pid : Inst → Nat) (a : MachineAction Inst) :
    LockInv (machineStep pid m a) := by
  cases a with
  | step i outcome => exact h.instanceStep pid outcome
  | start i | quit i =>
      simp only [machineStep]
      split
      · exact h.moves rfl rfl (Or.imp_right nofun)
      · exact h

end Exclusion

/--
Whatever fails and whatever becomes of the pid file: no two instances are between
`nv_core_instance_lock_acquire` and `nv_core_instance_lock_release` at the same time.
-/
theorem nvCoreRun_one_instance
    {Inst : Type u}
    [DecidableEq Inst]
    (pid : Inst → Nat)
    (path : Option Nat)
    (contents : Nat → List UInt8)
    (nextInode : Nat)
    (as : List (MachineAction Inst)) :
    let m := run (machineStep pid) (machineInit path contents nextInode) as
    {i | (m.inst i).Holds}.Subsingleton ∧ ∀ i, (m.inst i).Holds → m.socket = some i := by
  intro m
  have hinv : LockInv m := run_invariant (fun _ a h => h.step pid a) nofun as
  exact ⟨fun i hi j hj => Option.some.inj ((hinv i hi).symm.trans (hinv j hj)), hinv⟩

end Libnv.Instance
