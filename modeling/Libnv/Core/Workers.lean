import Libnv.Core.PidFile
import Libnv.Core.Supervise

/-!
# The master and its descendants

With `worker_processes` greater than one, `nv_core_workers_launch` forks the
workers, which go on to business initialisation with the role that the fork has
given them, and the launching process becomes the master.  A replacement is
forked by `nv_core_master_supervise` and calls `execv` at once, so that it runs
`nv_core_run` from its beginning: it has to take the instance lock, whose socket
is close-on-exec.

A process table is a list, and a pid is a position in it.  A process steps to
its next state and may fork one child.  The address of the lock is in use as
long as some process has the socket open.  Every call may fail, and every
process but the master may die at any time.

The field `replaces` is history: the `id` of the slot for which a process, or
the process it descends from, was forked by the master.
-/

namespace Libnv.Worker

open Instance Transition

/-- The configuration that all processes read. -/
structure WorkerConf where
  workerProcesses : Nat
  workerRespawn : Bool
  /-- `opts.daemon && !opts.foreground`. -/
  daemon : Bool
deriving DecidableEq

/-- Program points of `nv_core_run`. -/
inductive ProcPc where
  | parseArgs
  | startup (step : StartupStep)
  /-- The child of the fork in `nv_create_daemon`. -/
  | daemonChild
  | launch (i : Nat)
  | supervise
  /-- The child of the fork in `nv_core_master_supervise`, before `execv`. -/
  | respawned
  /-- Business initialisation and main loop. -/
  | business
  | shutdown (restart : Bool)
  | exited
deriving DecidableEq

/-- The memory of a process, as far as it matters, and its lock socket. -/
structure Proc where
  pc : ProcPc
  parent : Option Nat
  isMaster : Bool
  isWorker : Bool
  workerId : Nat
  /-- The statics of `nv_core_worker.c`. -/
  sup : Supervisor
  /-- `instance_lock_fd >= 0`. -/
  lockFd : Bool
  replaces : Option Nat
deriving DecidableEq

/-- What the calls of a step return, and whether a restart has been requested. -/
structure ProcInput where
  ok : Bool
  restart : Bool
  reaped : List Nat
deriving DecidableEq

/-- The state that a process steps to, and the child it forks. -/
structure ProcMove where
  next : Proc
  child : Option Proc

/-- A step without a fork. -/
def ProcMove.stay (p : Proc) : ProcMove where
  next := p
  child := none

def nvCoreWorkerMax : Nat := 128

/-- The number of workers that are launched. -/
def WorkerConf.count (conf : WorkerConf) : Nat :=
  min conf.workerProcesses nvCoreWorkerMax

/-- `execv`: a new image, whose lock socket is closed. -/
def Proc.exec (p : Proc) : Proc :=
  { p with
    pc := .parseArgs
    isMaster := false
    isWorker := false
    workerId := 0
    sup := { pc := .enter, workers := [], quit := false }
    lockFd := false }

/-- `nv_core_startup_init` after one of its steps has succeeded. -/
def startupOk (conf : WorkerConf) (busy : Bool) (self : Nat) (p : Proc) :
    StartupStep → ProcMove
  | .daemon =>
      if conf.daemon then
        { next := { p with pc := .exited, lockFd := false }
          child := some { p with pc := .daemonChild, parent := some self } }
      else .stay { p with pc := .startup .logInit }
  | .instanceLock =>
      if busy then .stay { p with pc := .shutdown false }
      else .stay { p with pc := .startup .pidfile, lockFd := true }
  | .baseInit =>
      -- `memset(g_workers, 0, sizeof(g_workers))` at the head of the launch
      .stay { p with
        pc := .launch 0
        sup := { p.sup with workers := List.replicate conf.count ⟨0, 0, false⟩ } }
  | step =>
      match step.next with
      | some next => .stay { p with pc := .startup next }
      | none => .stay p

/-- One iteration of the loop of `nv_core_workers_launch`; `newPid` is what `fork` returns. -/
def launchStep (conf : WorkerConf) (self newPid : Nat) (p : Proc) (i : Nat) (ok : Bool) :
    ProcMove :=
  if conf.workerProcesses ≤ 1 then
    .stay { p with pc := .business, isMaster := false, isWorker := false, workerId := 0 }
  else if i < conf.count then
    if ok then
      { next := { p with
          pc := .launch (i + 1)
          sup := { p.sup with workers := p.sup.workers.set i ⟨newPid, i + 1, true⟩ } }
        child := some { p with
          pc := .business
          parent := some self
          workerId := i + 1
          isWorker := true
          isMaster := false } }
    else .stay { p with pc := .shutdown false }
  else
    .stay { p with pc := .supervise, isMaster := true, sup := { p.sup with pc := .enter } }

/-- A step of `nv_core_master_supervise`, and of `nv_core_run` once it has returned. -/
def superviseProc (conf : WorkerConf) (self newPid : Nat) (p : Proc) (input : ProcInput) :
    ProcMove :=
  if p.sup.pc = .returned then .stay { p with pc := .shutdown false }
  else
    { next := { p with
        sup := superviseStep conf.workerRespawn p.sup
          ⟨input.reaped, if input.ok then some newPid else none⟩ }
      child :=
        if input.ok then
          p.sup.forks.map fun w =>
            { p with pc := .respawned, parent := some self, replaces := some w.id }
        else none }

/-- The next step of `nv_core_run` in a process; `busy` says that the lock is in use. -/
def procStep (conf : WorkerConf) (busy : Bool) (self newPid : Nat) (p : Proc)
    (input : ProcInput) : ProcMove :=
  match p.pc with
  | .parseArgs =>
      if input.ok then
        .stay { p with
          pc := .startup .loadConfig
          isMaster := false
          isWorker := false
          workerId := 0
          lockFd := false }
      else .stay { p with pc := .exited }
  | .startup step =>
      if input.ok then startupOk conf busy self p step
      else .stay { p with pc := .shutdown false }
  | .daemonChild =>
      if input.ok then .stay { p with pc := .startup .logInit, lockFd := false }
      else .stay { p with pc := .shutdown false }
  | .launch i => launchStep conf self newPid p i input.ok
  | .supervise => superviseProc conf self newPid p input
  | .respawned =>
      if input.ok then .stay p.exec else .stay { p with pc := .exited, lockFd := false }
  | .business => .stay { p with pc := .shutdown input.restart }
  | .shutdown restart =>
      if restart && input.ok then .stay p.exec
      else .stay { p with pc := .exited, lockFd := false }
  | .exited => .stay p

/-- A process takes its next step, or dies. -/
inductive ProcAction where
  | step (i : Nat) (input : ProcInput)
  | die (i : Nat)

/-- The pids that `waitpid` can return: children that have exited. -/
def reapable (s : List Proc) (self : Nat) (pids : List Nat) : List Nat :=
  pids.filter fun pid => s[pid]?.any fun p => p.pc = .exited && p.parent = some self

/-- The process `i` and its child are put into the table. -/
def putMove (s : List Proc) (i : Nat) (move : ProcMove) : List Proc :=
  s.set i move.next ++ move.child.toList

def tableStep (conf : WorkerConf) (s : List Proc) : ProcAction → List Proc
  | .step i input =>
      match s[i]? with
      | none => s
      | some p =>
          putMove s i (procStep conf (s.any Proc.lockFd) i s.length p
            { input with reaped := reapable s i input.reaped })
  | .die i =>
      match s[i]? with
      | none => s
      | some p =>
          if p.pc = .supervise then s
          else putMove s i (.stay { p with pc := .exited, lockFd := false })

/-- One process has been started. -/
def tableInit : List Proc :=
  [{ pc := .parseArgs
     parent := none
     isMaster := false
     isWorker := false
     workerId := 0
     sup := { pc := .enter, workers := [], quit := false }
     lockFd := false
     replaces := none }]

section Invariant

/-- The points between taking the lock in this process and leaving the master's loop. -/
def ProcPc.owns : ProcPc → Bool
  | .startup .pidfile | .startup .loadlibs | .startup .baseInit => true
  | .launch _ | .supervise => true
  | _ => false

def SupervisePc.inLoop : SupervisePc → Bool
  | .test | .reap | .respawn _ | .count | .sleep => true
  | _ => false

def Supervisor.InLoop (s : Supervisor) : Prop :=
  s.pc = .enter ∨ s.quit = false ∧ s.pc.inLoop = true

theorem Supervisor.InLoop.step {s : Supervisor} (h : s.InLoop) (input : SuperviseInput) :
    (superviseStep true s input).InLoop := by
  have hquit : (superviseStep true s input).quit = false :=
    superviseStep_quit true input (h.imp_right And.left)
  refine .inr ⟨hquit, ?_⟩
  rcases h with hpc | ⟨hflag, hloop⟩
  · simp [superviseStep, hpc, SupervisePc.inLoop]
  · cases hpc : s.pc with
    | respawn i =>
        simp only [superviseStep, hpc]
        repeat' split
        all_goals rfl
    | _ => simp_all [superviseStep, SupervisePc.inLoop]

/-- What a step of a process can do to its role, its lock and its child. -/
structure Moves (busy : Bool) (p : Proc) (move : ProcMove) : Prop where
  owns : move.next.pc.owns = true → (p.pc.owns = true ∧ move.next.lockFd = p.lockFd) ∨
    (busy = false ∧ move.next.lockFd = true)
  stays : p.pc = .supervise → p.sup.InLoop →
    move.next.pc = .supervise ∧ move.next.sup.InLoop
  enters : move.next.pc = .supervise → p.pc = .supervise ∨ move.next.sup.InLoop
  business : move.next.pc ≠ .business
  replaces : move.next.replaces = p.replaces
  childOwns : ∀ c ∈ move.child, c.pc.owns = false
  childBusiness : ∀ c ∈ move.child, c.pc = .business →
    p.pc.owns = true ∧ c.replaces = p.replaces ∧ c.isWorker = true ∧ c.isMaster = false
  childReplaces : ∀ c ∈ move.child, c.replaces = p.replaces ∨ p.pc = .supervise

/-- A process that does not fork and comes to a point outside the owned ones. -/
theorem Moves.leave {busy : Bool} {p next : Proc} (hpc : p.pc ≠ .supervise)
    (howns : next.pc.owns = false) (hbusiness : next.pc ≠ .business)
    (hreplaces : next.replaces = p.replaces) : Moves busy p (.stay next) where
  owns h := by simp [ProcMove.stay, howns] at h
  stays h := absurd h hpc
  enters h := by
    have hnext : next.pc = .supervise := h
    simp [hnext, ProcPc.owns] at howns
  business := hbusiness
  replaces := hreplaces
  childOwns c hc := by cases hc
  childBusiness c hc := by cases hc
  childReplaces c hc := by cases hc

/-- A process that does not fork and goes on with the lock. -/
theorem Moves.keep {busy : Bool} {p next : Proc} (hpc : p.pc ≠ .supervise)
    (howns : (p.pc.owns = true ∧ next.lockFd = p.lockFd) ∨ (busy = false ∧ next.lockFd = true))
    (henters : next.pc = .supervise → next.sup.InLoop) (hbusiness : next.pc ≠ .business)
    (hreplaces : next.replaces = p.replaces) : Moves busy p (.stay next) where
  owns _ := howns
  stays h := absurd h hpc
  enters h := .inr (henters h)
  business := hbusiness
  replaces := hreplaces
  childOwns c hc := by cases hc
  childBusiness c hc := by cases hc
  childReplaces c hc := by cases hc

variable {conf : WorkerConf} {busy : Bool} {self newPid : Nat} {p : Proc}

theorem moves_startupOk {step : StartupStep} (hpc : p.pc = .startup step) :
    Moves busy p (startupOk conf busy self p step) := by
  have hsup : p.pc ≠ .supervise := by simp [hpc]
  cases step with
  | loadConfig | validate | logInit => exact .leave hsup rfl (by simp) rfl
  | daemon =>
      simp only [startupOk]
      split
      · refine ⟨?_, fun h => absurd h hsup, ?_, ?_, rfl, ?_, ?_, ?_⟩
        all_goals simp [ProcPc.owns]
      · exact .leave hsup rfl (by simp) rfl
  | instanceLock =>
      simp only [startupOk]
      split
      · exact .leave hsup rfl (by simp) rfl
      · exact .keep hsup (.inr ⟨by simpa using ‹¬busy = true›, rfl⟩) (by simp) (by simp) rfl
  | pidfile | loadlibs | baseInit =>
      exact .keep hsup (.inl ⟨by simp [hpc, ProcPc.owns], rfl⟩)
        (by simp) (by simp) rfl

theorem moves_launchStep {i : Nat} (hmany : 1 < conf.workerProcesses) (hpc : p.pc = .launch i)
    (ok : Bool) : Moves busy p (launchStep conf self newPid p i ok) := by
  have hsup : p.pc ≠ .supervise := by simp [hpc]
  have howns : p.pc.owns = true := by simp [hpc, ProcPc.owns]
  simp only [launchStep, Nat.not_le.mpr hmany, if_false]
  split
  · split
    · -- the parent goes on with its next slot, the child is a worker
      refine ⟨fun _ => .inl ⟨howns, rfl⟩, fun h => absurd h hsup, by simp, by simp, rfl, ?_, ?_, ?_⟩
      all_goals simp [hpc, ProcPc.owns]
    · exact .leave hsup rfl (by simp) rfl
  · exact .keep hsup (.inl ⟨howns, rfl⟩) (fun _ => .inl rfl) (by simp) rfl

/-- The child of the master is a replacement that has not called `execv` yet. -/
theorem superviseProc_child {input : ProcInput} {c : Proc}
    (hc : c ∈ (superviseProc conf self newPid p input).child) : c.pc = .respawned := by
  unfold superviseProc at hc
  split at hc
  · cases hc
  · dsimp only at hc
    split at hc
    · obtain ⟨w, -, rfl⟩ := Option.map_eq_some_iff.mp hc
      rfl
    · cases hc

theorem moves_superviseProc (hrespawn : conf.workerRespawn = true) (hpc : p.pc = .supervise)
    (input : ProcInput) : Moves busy p (superviseProc conf self newPid p input) := by
  have howns : p.pc.owns = true := by simp [hpc, ProcPc.owns]
  have hchildOwns : ∀ c ∈ (superviseProc conf self newPid p input).child, c.pc.owns = false :=
    fun c hc => by simp [superviseProc_child hc, ProcPc.owns]
  have hchildBusiness : ∀ c ∈ (superviseProc conf self newPid p input).child, c.pc ≠ .business :=
    fun c hc => by simp [superviseProc_child hc]
  refine ⟨?_, ?_, fun _ => .inl hpc, ?_, ?_, hchildOwns, fun c hc h => absurd h (hchildBusiness c hc),
    fun _ _ => .inr hpc⟩
  all_goals unfold superviseProc
  · split
    · simp [ProcMove.stay, ProcPc.owns]
    · exact fun _ => .inl ⟨howns, rfl⟩
  · intro _ hloop
    -- the point after the loop is not reached
    have hreturned : p.sup.pc ≠ .returned := by
      rintro hreturned
      simp [Supervisor.InLoop, hreturned, SupervisePc.inLoop] at hloop
    simp only [hreturned, if_false, hrespawn]
    exact ⟨hpc, hloop.step _⟩
  · split
    · simp [ProcMove.stay]
    · simp [hpc]
  · split
    all_goals rfl

theorem moves_procStep (hmany : 1 < conf.workerProcesses) (hrespawn : conf.workerRespawn = true)
    (input : ProcInput) : Moves busy p (procStep conf busy self newPid p input) := by
  unfold procStep
  split
  next hpc =>
    split
    all_goals exact .leave (by simp [hpc]) rfl (by simp) rfl
  next step hpc =>
    split
    · exact moves_startupOk hpc
    · exact .leave (by simp [hpc]) rfl (by simp) rfl
  next hpc =>
    split
    all_goals exact .leave (by simp [hpc]) rfl (by simp) rfl
  next i hpc => exact moves_launchStep hmany hpc input.ok
  next hpc => exact moves_superviseProc hrespawn hpc input
  next hpc =>
    split
    all_goals exact .leave (by simp [hpc]) rfl (by simp [Proc.exec]) rfl
  next hpc => exact .leave (by simp [hpc]) rfl (by simp) rfl
  next restart hpc =>
    split
    all_goals exact .leave (by simp [hpc]) rfl (by simp [Proc.exec]) rfl
  next hpc => exact .leave (by simp [hpc]) (by simp [hpc, ProcPc.owns]) (by simp [hpc]) rfl

/-- Death is a move of every process but the master. -/
theorem moves_die (hpc : p.pc ≠ .supervise) :
    Moves busy p (.stay { p with pc := .exited, lockFd := false }) :=
  .leave hpc rfl (by simp) rfl

theorem getElem?_putMove {s : List Proc} {i j : Nat} {move : ProcMove} {q : Proc}
    (hq : (putMove s i move)[j]? = some q) :
    (j = i ∧ q = move.next) ∨ (j ≠ i ∧ s[j]? = some q) ∨ q ∈ move.child := by
  by_cases hj : j < s.length
  · rw [putMove, List.getElem?_append_left (by simpa using hj), List.getElem?_set] at hq
    by_cases hji : i = j
    · subst hji
      exact .inl ⟨rfl, by simpa [hj] using hq.symm⟩
    · exact .inr (.inl ⟨Ne.symm hji, by simpa [hji] using hq⟩)
  · rw [putMove, List.getElem?_append_right (by simpa using hj)] at hq
    exact .inr (.inr (by simpa using List.mem_of_getElem? hq))

/-- The process that moves. -/
theorem getElem?_putMove_self {s : List Proc} {i : Nat} (hp : s[i]? = some p) (move : ProcMove) :
    (putMove s i move)[i]? = some move.next := by
  have hi : i < s.length := (List.getElem?_eq_some_iff.mp hp).1
  simp [putMove, List.getElem?_append_left, hi]

/-- Another process. -/
theorem getElem?_putMove_other {s : List Proc} {i j : Nat} {q : Proc} (hq : s[j]? = some q)
    (hj : j ≠ i) (move : ProcMove) : (putMove s i move)[j]? = some q := by
  have hlt : j < s.length := (List.getElem?_eq_some_iff.mp hq).1
  rw [putMove, List.getElem?_append_left (by simpa using hlt), List.getElem?_set_ne hj.symm, hq]

/-- A process runs `nv_core_master_supervise`. -/
def Supervises (s : List Proc) (m : Nat) : Prop :=
  ∃ q, s[m]? = some q ∧ q.pc = .supervise

/-- The roles of the processes. -/
structure RolesInv (s : List Proc) : Prop where
  business : ∀ (i : Nat) (p : Proc), s[i]? = some p → p.pc = .business →
    p.isWorker = true ∧ p.isMaster = false
  holds : ∀ (i : Nat) (p : Proc), s[i]? = some p → p.pc.owns = true → p.lockFd = true
  one : ∀ (i j : Nat) (p q : Proc), s[i]? = some p → s[j]? = some q →
    p.pc.owns = true → q.pc.owns = true → i = j
  looping : ∀ (i : Nat) (p : Proc), s[i]? = some p → p.pc = .supervise → p.sup.InLoop
  replaced : ∀ (i : Nat) (p : Proc), s[i]? = some p → p.replaces ≠ none →
    p.pc.owns = false ∧ p.pc ≠ .business ∧ ∃ m, Supervises s m

section Move

variable {s : List Proc} {i : Nat} {move : ProcMove}

/-- The master stays where it is. -/
theorem RolesInv.supervises (h : RolesInv s) (hp : s[i]? = some p) (hmove : Moves busy p move)
    {m : Nat} (hm : Supervises s m) : Supervises (putMove s i move) m := by
  obtain ⟨q, hq, hpc⟩ := hm
  by_cases hmi : m = i
  · subst hmi
    obtain rfl : p = q := by simpa [hp] using hq
    exact ⟨_, getElem?_putMove_self hp move, (hmove.stays hpc (h.looping _ _ hp hpc)).1⟩
  · exact ⟨q, getElem?_putMove_other hq hmi move, hpc⟩

theorem RolesInv.moved_owns (h : RolesInv s) (hp : s[i]? = some p)
    (hmove : Moves (s.any Proc.lockFd) p move) (howns : move.next.pc.owns = true) {j : Nat}
    {q : Proc} (hq : s[j]? = some q) (hqowns : q.pc.owns = true) : j = i := by
  rcases hmove.owns howns with ⟨hpowns, -⟩ | ⟨hfree, -⟩
  · exact h.one _ _ _ _ hq hp hqowns hpowns
  · have hheld : s.any Proc.lockFd = true :=
      List.any_eq_true.mpr ⟨q, List.mem_of_getElem? hq, h.holds j q hq hqowns⟩
    simp [hheld] at hfree

theorem RolesInv.put (h : RolesInv s) (hp : s[i]? = some p)
    (hmove : Moves (s.any Proc.lockFd) p move) : RolesInv (putMove s i move) where
  business j q hq hpc := by
    rcases getElem?_putMove hq with ⟨-, rfl⟩ | ⟨-, hq⟩ | hq
    · exact absurd hpc hmove.business
    · exact h.business j q hq hpc
    · exact (hmove.childBusiness q hq hpc).2.2
  holds j q hq howns := by
    rcases getElem?_putMove hq with ⟨-, rfl⟩ | ⟨-, hq⟩ | hq
    · rcases hmove.owns howns with ⟨hpowns, hfd⟩ | ⟨-, hfd⟩
      · rw [hfd]
        exact h.holds i p hp hpowns
      · exact hfd
    · exact h.holds j q hq howns
    · simp [hmove.childOwns q hq] at howns
  one j k q r hq hr hqowns hrowns := by
    rcases getElem?_putMove hq with ⟨rfl, rfl⟩ | ⟨-, hqold⟩ | hqchild
    · rcases getElem?_putMove hr with ⟨rfl, -⟩ | ⟨-, hrold⟩ | hrchild
      · rfl
      · exact (h.moved_owns hp hmove hqowns hrold hrowns).symm
      · simp [hmove.childOwns r hrchild] at hrowns
    · rcases getElem?_putMove hr with ⟨rfl, rfl⟩ | ⟨-, hrold⟩ | hrchild
      · exact h.moved_owns hp hmove hrowns hqold hqowns
      · exact h.one j k q r hqold hrold hqowns hrowns
      · simp [hmove.childOwns r hrchild] at hrowns
    · simp [hmove.childOwns q hqchild] at hqowns
  looping j q hq hpc := by
    rcases getElem?_putMove hq with ⟨-, rfl⟩ | ⟨-, hq⟩ | hq
    · rcases hmove.enters hpc with hold | hloop
      · exact (hmove.stays hold (h.looping i p hp hold)).2
      · exact hloop
    · exact h.looping j q hq hpc
    · have hfree := hmove.childOwns q hq
      simp [hpc, ProcPc.owns] at hfree
  replaced j q hq hreplaces := by
    rcases getElem?_putMove hq with ⟨-, rfl⟩ | ⟨-, hq⟩ | hq
    · rw [hmove.replaces] at hreplaces
      obtain ⟨hfree, -, m, hm⟩ := h.replaced i p hp hreplaces
      refine ⟨?_, hmove.business, m, h.supervises hp hmove hm⟩
      -- a replacement cannot take the lock that the master holds
      by_contra howns
      obtain ⟨r, hr, hrpc⟩ := hm
      have hmi := h.moved_owns hp hmove (by simpa using howns) hr (by simp [hrpc, ProcPc.owns])
      subst hmi
      obtain rfl : p = r := by simpa [hp] using hr
      simp [hrpc, ProcPc.owns] at hfree
    · obtain ⟨hfree, hbusiness, m, hm⟩ := h.replaced j q hq hreplaces
      exact ⟨hfree, hbusiness, m, h.supervises hp hmove hm⟩
    · refine ⟨hmove.childOwns q hq, ?_, ?_⟩
      · intro hpc
        obtain ⟨howns, hsame, -⟩ := hmove.childBusiness q hq hpc
        rw [hsame] at hreplaces
        simp [(h.replaced i p hp hreplaces).1] at howns
      · rcases hmove.childReplaces q hq with hsame | hpc
        · rw [hsame] at hreplaces
          obtain ⟨-, -, m, hm⟩ := h.replaced i p hp hreplaces
          exact ⟨m, h.supervises hp hmove hm⟩
        · exact ⟨i, h.supervises hp hmove ⟨p, hp, hpc⟩⟩

end Move

end Invariant

section Runs

variable {conf : WorkerConf}

theorem rolesInv_init : RolesInv tableInit where
  business i p hp hpc := by
    have hmem := List.mem_of_getElem? hp
    simp_all [tableInit]
  holds i p hp howns := by
    have hmem := List.mem_of_getElem? hp
    simp_all [tableInit, ProcPc.owns]
  one i j p q hp hq hpowns hqowns := by
    have hmem := List.mem_of_getElem? hp
    simp_all [tableInit, ProcPc.owns]
  looping i p hp hpc := by
    have hmem := List.mem_of_getElem? hp
    simp_all [tableInit]
  replaced i p hp hreplaces := by
    have hmem := List.mem_of_getElem? hp
    simp_all [tableInit]

section Many

variable (hmany : 1 < conf.workerProcesses)
include hmany

theorem tableStep_cases (hrespawn : conf.workerRespawn = true)
    (s : List Proc) (a : ProcAction) :
    tableStep conf s a = s ∨
      ∃ i p move, s[i]? = some p ∧ Moves (s.any Proc.lockFd) p move ∧
        tableStep conf s a = putMove s i move := by
  cases a with
  | step i input =>
      cases hp : s[i]? with
      | none => exact .inl (by simp [tableStep, hp])
      | some p =>
          refine .inr ⟨i, p, procStep conf (s.any Proc.lockFd) i s.length p
            { input with reaped := reapable s i input.reaped }, hp,
            moves_procStep hmany hrespawn _, by simp only [tableStep, hp]⟩
  | die i =>
      cases hp : s[i]? with
      | none => exact .inl (by simp [tableStep, hp])
      | some p =>
          by_cases hpc : p.pc = .supervise
          · exact .inl (by simp [tableStep, hp, hpc])
          · exact .inr ⟨i, p, _, hp, moves_die hpc, by simp only [tableStep, hp, hpc, if_false]⟩

theorem RolesInv.step (hrespawn : conf.workerRespawn = true)
    {s : List Proc} (h : RolesInv s) (a : ProcAction) :
    RolesInv (tableStep conf s a) ∧
      ∀ m, Supervises s m → Supervises (tableStep conf s a) m := by
  rcases tableStep_cases hmany hrespawn s a with hsame | ⟨i, p, move, hp, hmove, hput⟩
  · rw [hsame]
    exact ⟨h, fun _ hm => hm⟩
  · rw [hput]
    exact ⟨h.put hp hmove, fun _ hm => h.supervises hp hmove hm⟩

/-- The invariant holds in every state that the processes reach. -/
theorem rolesInv_run (hrespawn : conf.workerRespawn = true)
    (as : List ProcAction) : RolesInv (run (tableStep conf) tableInit as) :=
  run_invariant (fun _ a h => (h.step hmany hrespawn a).1) rolesInv_init as

/-- A master stays the master. -/
theorem supervises_run (hrespawn : conf.workerRespawn = true)
    {m : Nat} (as bs : List ProcAction) (hm : Supervises (run (tableStep conf) tableInit as) m) :
    Supervises (run (tableStep conf) tableInit (as ++ bs)) m := by
  rw [run_append]
  refine (@run_invariant _ _ (tableStep conf) (fun s => RolesInv s ∧ Supervises s m) _ ?_
    ⟨rolesInv_run hmany hrespawn as, hm⟩ bs).2
  intro s a ⟨h, hs⟩
  obtain ⟨hstep, hkeeps⟩ := h.step hmany hrespawn a
  exact ⟨hstep, hkeeps m hs⟩

end Many

/--
With several workers and `worker_respawn` on, every process that enters business
initialisation is a worker and no master, and if it replaces the worker of a
slot it has the id of that slot.  Once a process has become the master, no other
process ever does.
-/
theorem nvCoreWorkersLaunch_keeps_roles
    (conf : WorkerConf)
    (hmany : 1 < conf.workerProcesses)
    (hrespawn : conf.workerRespawn = true)
    (as : List ProcAction) :
    (∀ (i : Nat) (p : Proc), (run (tableStep conf) tableInit as)[i]? = some p →
        p.pc = .business →
        p.isWorker = true ∧ p.isMaster = false ∧ ∀ id, p.replaces = some id → p.workerId = id) ∧
      ∀ m, Supervises (run (tableStep conf) tableInit as) m →
        ∀ bs i, Supervises (run (tableStep conf) tableInit (as ++ bs)) i → i = m := by
  have h := rolesInv_run hmany hrespawn as
  refine ⟨fun i p hp hpc => ?_, fun m hm bs i hi => ?_⟩
  · obtain ⟨hworker, hmaster⟩ := h.business i p hp hpc
    refine ⟨hworker, hmaster, fun id hid => ?_⟩
    -- a replacement has not come this far
    exact absurd hpc (h.replaced i p hp (by simp [hid])).2.1
  · obtain ⟨p, hp, hpc⟩ := hi
    obtain ⟨q, hq, hqpc⟩ := supervises_run hmany hrespawn as bs hm
    exact (rolesInv_run hmany hrespawn (as ++ bs)).one i m p q hp hq
      (by simp [hpc, ProcPc.owns]) (by simp [hqpc, ProcPc.owns])

def twoWorkers : WorkerConf where
  workerProcesses := 2
  workerRespawn := true
  daemon := false

/-- The first worker dies, is replaced, and the replacement runs `nv_core_run`. -/
def respawnRun : List ProcAction :=
  let step (i : Nat) : ProcAction := .step i ⟨true, false, [1]⟩
  List.replicate 14 (step 0) ++ [ProcAction.die 1] ++ List.replicate 2 (step 0) ++
    List.replicate 8 (step 3)

/-- The replacement has found the lock in use and exited; the master is the only one for ever. -/
theorem respawn_run_keeps_roles :
    (run (tableStep twoWorkers) tableInit respawnRun).map Proc.pc =
        [.supervise, .exited, .business, .exited] ∧
      (run (tableStep twoWorkers) tableInit respawnRun).map Proc.replaces =
        [none, none, none, some 1] ∧
      ∀ bs i, Supervises (run (tableStep twoWorkers) tableInit (respawnRun ++ bs)) i → i = 0 :=
  ⟨by decide +kernel, by decide +kernel,
    (nvCoreWorkersLaunch_keeps_roles twoWorkers (by decide) rfl respawnRun).2 0 ⟨_, rfl, rfl⟩⟩

end Runs

end Libnv.Worker
