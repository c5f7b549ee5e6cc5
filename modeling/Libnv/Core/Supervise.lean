import Libnv.Base.Signal
import Libnv.Lib.Transition

/-!
# The master's loop

`nv_core_master_supervise` reaps the workers that have exited, starts a
replacement for each of them if `worker_respawn` is set, and goes on until
`g_master_quit` is set; then it stops the workers.  The flag is set by the
handler `nv_core_master_on_signal`, which is registered for `SIGINT` and
`SIGTERM` with the signal module.

A handler of that module runs in `nv_signal_dispatch` only, which nothing in the
loop calls.  So a termination request stays pending and the loop goes on.

The results of `waitpid` and `fork` are chosen from outside.
-/

namespace Libnv.Worker

open Signal Transition

/-- `nv_worker_slot_t`. -/
structure WorkerSlot where
  pid : Nat
  id : Nat
  alive : Bool
deriving DecidableEq

/-- Program points of `nv_core_master_supervise`. -/
inductive SupervisePc where
  | enter
  /-- `while (!g_master_quit)`. -/
  | test
  | reap
  | respawn (i : Nat)
  | count
  | sleep
  /-- `kill(g_workers[i].pid, SIGTERM)`. -/
  | stop (i : Nat)
  /-- The 30 rounds of `nv_core_worker_reap_all`. -/
  | drain (round : Nat)
  /-- `kill(g_workers[i].pid, SIGKILL)` and the blocking `waitpid`. -/
  | kill (i : Nat)
  | returned
deriving DecidableEq

/-- The state of `nv_core_master_supervise`. -/
structure Supervisor where
  pc : SupervisePc
  /-- `g_workers`, of which there are `g_worker_count`. -/
  workers : List WorkerSlot
  /-- `g_master_quit`. -/
  quit : Bool
deriving DecidableEq

/-- What the system calls of a step return. -/
structure SuperviseInput where
  /-- The pids that `waitpid(-1, &status, WNOHANG)` returns in turn. -/
  reaped : List Nat
  /-- The pid that `fork` returns, if it succeeds. -/
  forked : Option Nat
deriving DecidableEq

/-- `nv_core_master_on_signal`, on `g_master_quit`. -/
def nvCoreMasterOnSignal (signum : Int) (quit : Bool) : Bool :=
  if signum = sigInt ∨ signum = sigTerm then true else quit

/-- The search in `nv_core_worker_reap_all`: the first alive slot with this pid. -/
def reapOne (pid : Nat) : List WorkerSlot → List WorkerSlot
  | [] => []
  | w :: ws =>
      if w.alive ∧ w.pid = pid then { w with alive := false } :: ws else w :: reapOne pid ws

def nvCoreWorkerReapAll (reaped : List Nat) (workers : List WorkerSlot) : List WorkerSlot :=
  reaped.foldl (fun ws pid => reapOne pid ws) workers

/-- The slot for which the next step of the loop calls `fork`. -/
def Supervisor.forks (s : Supervisor) : Option WorkerSlot :=
  match s.pc with
  | .respawn i => s.workers[i]?.filter fun w => !w.alive
  | _ => none

/-- The next step of `nv_core_master_supervise`. -/
def superviseStep (workerRespawn : Bool) (s : Supervisor) (input : SuperviseInput) : Supervisor :=
  match s.pc with
  | .enter => { s with pc := .test, quit := false }
  | .test => if s.quit then { s with pc := .stop 0 } else { s with pc := .reap }
  | .reap =>
      { s with
        pc := if workerRespawn then .respawn 0 else .count
        workers := nvCoreWorkerReapAll input.reaped s.workers }
  | .respawn i =>
      match s.workers[i]? with
      | none => { s with pc := .count }
      | some w =>
          if w.alive then { s with pc := .respawn (i + 1) }
          else
            match input.forked with
            | none => { s with pc := .respawn (i + 1) }
            | some npid =>
                { s with
                  pc := .respawn (i + 1)
                  workers := s.workers.set i { w with pid := npid, alive := true } }
  | .count =>
      if (s.workers.all fun w => !w.alive) && !workerRespawn then { s with pc := .stop 0 }
      else { s with pc := .sleep }
  | .sleep => { s with pc := .test }
  | .stop i => if i < s.workers.length then { s with pc := .stop (i + 1) } else { s with pc := .drain 0 }
  | .drain round =>
      if round < 30 then
        { s with
          pc := .drain (round + 1)
          workers := nvCoreWorkerReapAll input.reaped s.workers }
      else { s with pc := .kill 0 }
  | .kill i =>
      if i < s.workers.length then { s with pc := .kill (i + 1) } else { s with pc := .returned }
  | .returned => s

theorem superviseStep_quit (workerRespawn : Bool) {s : Supervisor} (input : SuperviseInput)
    (h : s.pc = .enter ∨ s.quit = false) : (superviseStep workerRespawn s input).quit = false := by
  by_cases henter : s.pc = .enter
  · simp [superviseStep, henter]
  · have hquit := h.resolve_left henter
    unfold superviseStep
    repeat' split
    all_goals first | exact hquit | rfl

/-- While the flag is not set, the loop condition holds. -/
theorem superviseStep_test (workerRespawn : Bool) {s : Supervisor} (input : SuperviseInput)
    (hpc : s.pc = .test) (hquit : s.quit = false) :
    superviseStep workerRespawn s input = { s with pc := .reap } := by
  simp [superviseStep, hpc, hquit]

section System

/-- The master, its signals and what has happened so far. -/
structure MasterSystem where
  sup : Supervisor
  signals : SignalModule Bool
  pending : List Int
  /-- The default action of a signal has ended the process. -/
  dead : Bool
  /-- `SIGINT` or `SIGTERM` has been delivered. -/
  requested : Bool
  /-- The current iteration was entered after that. -/
  late : Bool
  /-- The pids of the replacements. -/
  replacements : List Nat

/-- The master takes its next step, or a signal is delivered to it. -/
inductive MasterAction where
  | step (input : SuperviseInput) (fdOk : Nat → Bool)
  | deliver (signum : Int)

/-- The calls of the signal module in `nv_core_master_supervise`. -/
def registerMaster (g : SignalModule Bool) (fdOk : Nat → Bool) : SignalModule Bool :=
  let g := (nvSignalInit g (fdOk 0)).2
  let g := (nvSignalRegister g sigInt (some nvCoreMasterOnSignal) (fdOk 1) (fdOk 2)).2
  let g := (nvSignalRegister g sigTerm (some nvCoreMasterOnSignal) (fdOk 3) (fdOk 4)).2
  (nvSignalRegister g sigChld (some nvCoreMasterOnSignal) (fdOk 5) (fdOk 6)).2

variable (fatal : Int → Bool) (workerRespawn : Bool)

/-- A signal is delivered; `fatal` is the default action of those that are not blocked. -/
def deliver (s : MasterSystem) (signum : Int) : MasterSystem :=
  { s with
    requested := s.requested || signum == sigInt || signum == sigTerm
    pending := if signum ∈ s.signals.blocked then s.pending.insert signum else s.pending
    dead := signum ∉ s.signals.blocked && fatal signum }

/-- One step of `nv_core_master_supervise`. -/
def loopStep (s : MasterSystem) (input : SuperviseInput) (fdOk : Nat → Bool) : MasterSystem :=
  { s with
    sup := superviseStep workerRespawn s.sup input
    signals := if s.sup.pc = .enter then registerMaster s.signals fdOk else s.signals
    late := if s.sup.pc = .test then s.requested else s.late
    replacements :=
      if s.sup.forks.isSome then s.replacements ++ input.forked.toList else s.replacements }

def masterStep (s : MasterSystem) (a : MasterAction) : MasterSystem :=
  if s.dead then s
  else
    match a with
    | .step input fdOk => loopStep workerRespawn s input fdOk
    | .deliver signum => deliver fatal s signum

/-- `nv_core_master_supervise` is called. -/
def masterInit (workers : List WorkerSlot) (quit : Bool) (signals : SignalModule Bool) :
    MasterSystem where
  sup := { pc := .enter, workers := workers, quit := quit }
  signals := signals
  pending := []
  dead := false
  requested := false
  late := false
  replacements := []

/--
After a termination request the loop condition leaves the loop, and no
iteration entered after it forks.
-/
structure StopsWhenAsked (s : MasterSystem) (a : MasterAction) : Prop where
  leaves : ∀ input fdOk, a = .step input fdOk → s.dead = false → s.sup.pc = .test →
    s.requested = true → (masterStep fatal workerRespawn s a).sup.pc = .stop 0
  noFork : s.late = true →
    (masterStep fatal workerRespawn s a).replacements = s.replacements

/-- When the loop condition is evaluated, no termination request has been delivered. -/
def NotAsked (s : MasterSystem) : MasterAction → Prop
  | .step _ _ => s.dead = false → s.sup.pc = .test → s.requested = false
  | .deliver _ => True

instance
    (s : MasterSystem)
    (a : MasterAction) :
    Decidable (NotAsked s a) :=
  match a with
  | .step _ _ => inferInstanceAs (Decidable (s.dead = false → s.sup.pc = .test → s.requested = false))
  | .deliver _ => inferInstanceAs (Decidable True)

/-- The flag is not set inside the function, and no iteration is late. -/
structure MasterInv (s : MasterSystem) : Prop where
  quit : s.sup.pc = .enter ∨ s.sup.quit = false
  late : s.late = false

variable {fatal} {workerRespawn}

theorem masterInv_init (workers : List WorkerSlot) (quit : Bool) (signals : SignalModule Bool) :
    MasterInv (masterInit workers quit signals) where
  quit := .inl rfl
  late := rfl

theorem MasterInv.step {s : MasterSystem} (h : MasterInv s) {a : MasterAction} (ha : NotAsked s a) :
    MasterInv (masterStep fatal workerRespawn s a) := by
  by_cases hdead : s.dead = true
  · simpa [masterStep, hdead] using h
  have halive : s.dead = false := by simpa using hdead
  cases a with
  | deliver signum =>
      simp only [masterStep, halive, Bool.false_eq_true, if_false, deliver]
      exact ⟨h.quit, h.late⟩
  | step input fdOk =>
      simp only [masterStep, halive, Bool.false_eq_true, if_false, loopStep]
      refine ⟨.inr (superviseStep_quit _ _ h.quit), ?_⟩
      by_cases hpc : s.sup.pc = .test
      · simp [hpc, ha halive hpc]
      · simp [hpc, h.late]

theorem MasterInv.stops_iff {s : MasterSystem} (h : MasterInv s) (a : MasterAction) :
    StopsWhenAsked fatal workerRespawn s a ↔ NotAsked s a := by
  constructor
  · intro hstops
    cases a with
    | deliver signum => trivial
    | step input fdOk =>
        intro halive hpc
        by_contra hasked
        have hleft := hstops.leaves input fdOk rfl halive hpc (by simpa using hasked)
        have hquit : s.sup.quit = false := h.quit.resolve_left (by simp [hpc])
        simp [masterStep, halive, loopStep, superviseStep_test _ _ hpc hquit] at hleft
  · intro hnot
    refine ⟨?_, fun hlate => by simp [h.late] at hlate⟩
    rintro input fdOk rfl halive hpc hasked
    rw [hnot halive hpc] at hasked
    cases hasked

/--
In every run of `nv_core_master_supervise`, the master stops when asked at every
step exactly when no termination request has been delivered whenever the loop
condition is evaluated.
-/
theorem nvCoreMasterSupervise_stops_when_asked_iff
    (fatal : Int → Bool)
    (workerRespawn quit : Bool)
    (workers : List WorkerSlot)
    (signals : SignalModule Bool)
    (as : List MasterAction) :
    Along (masterStep fatal workerRespawn) (StopsWhenAsked fatal workerRespawn)
        (masterInit workers quit signals) as ↔
      Along (masterStep fatal workerRespawn) NotAsked (masterInit workers quit signals) as :=
  along_iff_along_of_inv (masterInv_init workers quit signals)
    (fun _ _ h ha => h.step ha) (fun _ a h => h.stops_iff a) as

def oneWorkerMaster : MasterSystem :=
  masterInit [⟨7, 1, true⟩] false (signalStart ∅)

/-- `SIGTERM` arrives in the first iteration; in the second, the worker has exited. -/
def askedThenDeath : List MasterAction :=
  let quiet : MasterAction := .step ⟨[], none⟩ fun _ => true
  [quiet, quiet, .deliver sigTerm, quiet, quiet, quiet, quiet, quiet, quiet,
    .step ⟨[7], none⟩ fun _ => true]

def askedMaster : MasterSystem :=
  run (masterStep (fun _ => true) true) oneWorkerMaster askedThenDeath

/--
The request is pending in the signalfd and `nv_signal_dispatch` would set the
flag, but the iteration that was entered after it forks a replacement.
-/
theorem master_respawns_after_request :
    askedMaster.pending = [sigTerm] ∧
      nvSignalDispatch askedMaster.signals [sigTerm] askedMaster.sup.quit = ([], true) ∧
      askedMaster.late = true ∧
      askedMaster.replacements = [] ∧
      (masterStep (fun _ => true) true askedMaster
        (.step ⟨[], some 8⟩ fun _ => true)).replacements = [8] := by
  decide +kernel

end System

end Libnv.Worker
