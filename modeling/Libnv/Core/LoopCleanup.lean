import Libnv.Event.RunState
import Libnv.Lib.Ownership

/-!
# What the cleanup of the event loop closes

`nv_loop_init` and `nv_loop_cleanup` of `src/event/nv_loop.c` on the ways by which
`nv_core_run` reaches `nv_core_business_cleanup`.  The cleanup goes by the values of
the fields: `epoll_fd != -1`, `wakeup_pipe[i] >= 0`.  They are 0 in a loop that was
never initialised, and `epoll_fd` keeps its value when `nv_loop_init` has closed it for
want of memory.

Every descriptor has an owner: who started the process, the loop, or other code.  Other
code closes its own descriptors only.
-/

namespace Libnv.LoopLife

open Ownership Transition LoopRun

/-- Who has opened a descriptor. -/
inductive Owner where
  | entry
  | loop
  | other
deriving DecidableEq, Repr

/-- The memory that `nv_loop_cleanup` frees. -/
inductive Block where
  | events
  | signalEvents
  | signals
  | signalfdEv
deriving DecidableEq, Repr

structure ListEvent where
  fd : Int
  active : Bool
  /-- `ev->loop` is not NULL. -/
  loop : Bool
  /-- `ev->handler` is not NULL. -/
  handler : Bool
deriving DecidableEq, Repr

/-- `nv_loop_t`, as far as `nv_loop_init` and `nv_loop_cleanup` read and write it. -/
structure NvLoop where
  epollFd : Int
  /-- `events` is not NULL. -/
  events : Bool
  state : NvLoopState
  /-- The events from `timers.head` on. -/
  timers : List ListEvent
  /-- The events from `idle.head` on. -/
  idle : List ListEvent
  /-- The array `signals.signal_events`, unless it is NULL. -/
  signalEvents : Option (List ListEvent)
  /-- `signalfd_ev` is not NULL. -/
  signalfdEv : Bool
  signalfdFd : Int
  wakeupPipe0 : Int
  wakeupPipe1 : Int
  wakeupInited : Bool
deriving DecidableEq, Repr

/-- The loop, the descriptors of the process, and the memory that was freed. -/
structure Process where
  loop : NvLoop
  fds : Table Int Owner
  freed : List Block

def zeroed : NvLoop where
  epollFd := 0
  events := false
  state := .init
  timers := []
  idle := []
  signalEvents := none
  signalfdEv := false
  signalfdFd := 0
  wakeupPipe0 := 0
  wakeupPipe1 := 0
  wakeupInited := false

/-- The system gives out a free descriptor, or none. -/
def Process.grant (p : Process) (fd? : Option Int) : Option Int :=
  fd?.filter fun fd => 0 ≤ fd ∧ p.fds.owner fd = none

def Process.grantPipe (p : Process) (pipe? : Option (Int × Int)) : Option (Int × Int) :=
  pipe?.filter fun pipe =>
    (0 ≤ pipe.1 ∧ p.fds.owner pipe.1 = none) ∧ (0 ≤ pipe.2 ∧ p.fds.owner pipe.2 = none) ∧
      pipe.1 ≠ pipe.2

/-- How the steps of `nv_loop_init` end. -/
structure InitSteps where
  /-- What `epoll_create1` returns. -/
  epoll : Option Int
  /-- `malloc` succeeds. -/
  malloc : Bool
  /-- What `pipe` returns. -/
  pipe : Option (Int × Int)
  /-- `epoll_ctl` succeeds. -/
  ctl : Bool

/-- `nv_loop_init`, with its return value. -/
def nvLoopInit (p : Process) (steps : InitSteps) : Process × Int :=
  let loop := { zeroed with wakeupPipe0 := -1, wakeupPipe1 := -1 }
  match p.grant steps.epoll with
  | none => ({ p with loop := { loop with epollFd := -1 } }, -1)
  | some epollFd =>
      let p := { p with loop := { loop with epollFd := epollFd }, fds := p.fds.give epollFd .loop }
      if steps.malloc = false then ({ p with fds := p.fds.release epollFd }, -1)
      else
        let p := { p with loop := { p.loop with events := true } }
        match p.grantPipe steps.pipe with
        | none => (p, 0)
        | some (fd0, fd1) =>
            let fds := (p.fds.give fd0 .loop).give fd1 .loop
            if steps.ctl then
              ({ p with
                loop := { p.loop with wakeupPipe0 := fd0, wakeupPipe1 := fd1, wakeupInited := true }
                fds := fds }, 0)
            else ({ p with fds := (fds.release fd0).release fd1 }, 0)

/-- `nv_event_cleanup`, for an event of a loop with the descriptor `epollFd`. -/
def ListEvent.cleaned (epollFd : Int) (ev : ListEvent) : ListEvent where
  fd := -1
  active := false
  -- `nv_loop_del_event` returns at once if there is no epoll instance
  loop := ev.loop && ! (ev.active && decide (0 ≤ ev.fd ∧ epollFd ≠ -1))
  handler := false

/-- All events of a list are cleaned up.  The head stays, and its `next` is NULL. -/
def cleanList (epollFd : Int) (evs : List ListEvent) : List ListEvent :=
  (evs.map (ListEvent.cleaned epollFd)).take 1

/-- The timers and the idle events are cleaned up. -/
def cleanLists (p : Process) : Process :=
  { p with
    loop :=
      { p.loop with
        timers := cleanList p.loop.epollFd p.loop.timers
        idle := cleanList p.loop.epollFd p.loop.idle } }

def nvLoopDetachSignalfd (p : Process) : Process :=
  if p.loop.signalfdEv then
    { p with
      loop := { p.loop with signalfdEv := false, signalfdFd := -1 }
      freed := p.freed ++ [.signalfdEv] }
  else p

def closeWakeupPipe (p : Process) : Process :=
  let p :=
    if 0 ≤ p.loop.wakeupPipe0 then
      { p with
        loop := { p.loop with wakeupPipe0 := -1 }
        fds := p.fds.release p.loop.wakeupPipe0 }
    else p
  let p :=
    if 0 ≤ p.loop.wakeupPipe1 then
      { p with
        loop := { p.loop with wakeupPipe1 := -1 }
        fds := p.fds.release p.loop.wakeupPipe1 }
    else p
  { p with loop := { p.loop with wakeupInited := false } }

/-- The events of the signals are cleaned up, and the arrays freed; the pointers stay. -/
def cleanSignals (p : Process) : Process :=
  match p.loop.signalEvents with
  | none => p
  | some evs =>
      { p with
        loop :=
          { p.loop with signalEvents := some (evs.map (ListEvent.cleaned p.loop.epollFd)) }
        freed := p.freed ++ [.signalEvents, .signals] }

def closeEpoll (p : Process) : Process :=
  if p.loop.epollFd ≠ -1 then
    { p with
      loop := { p.loop with epollFd := -1 }
      fds := p.fds.release p.loop.epollFd }
  else p

def freeEvents (p : Process) : Process :=
  if p.loop.events then
    { p with
      loop := { p.loop with events := false }
      freed := p.freed ++ [.events] }
  else p

/-- The state that `nv_loop_stop` stores is overwritten. -/
def nvLoopCleanup (p : Process) : Process :=
  let p := freeEvents (closeEpoll (cleanSignals (closeWakeupPipe (nvLoopDetachSignalfd
    (cleanLists p)))))
  { p with loop := { p.loop with state := .stopped } }

/-- What other code does between the calls that are modelled. -/
inductive LoopUse where
  /-- It opens a descriptor. -/
  | openFd (fd : Int)
  /-- It closes a descriptor of its own. -/
  | closeFd (fd : Int)
  /-- It adds and deletes timers, or the loop handles them. -/
  | setTimers (evs : List ListEvent)
  /-- The same for idle events. -/
  | setIdle (evs : List ListEvent)
  /-- `nv_loop_add_signal`. -/
  | addSignal (ev : ListEvent)
  /-- `nv_loop_run`, `nv_loop_stop`, `nv_loop_pause` and `nv_loop_resume`. -/
  | setState (state : NvLoopState)

def use (p : Process) : LoopUse → Process
  | .openFd fd =>
      match p.grant (some fd) with
      | none => p
      | some fd => { p with fds := p.fds.give fd .other }
  | .closeFd fd => if p.fds.owner fd = some .other then { p with fds := p.fds.release fd } else p
  | .setTimers evs => { p with loop := { p.loop with timers := evs } }
  | .setIdle evs => { p with loop := { p.loop with idle := evs } }
  | .addSignal ev =>
      { p with
        loop := { p.loop with signalEvents := some (p.loop.signalEvents.getD [] ++ [ev]) } }
  | .setState state => { p with loop := { p.loop with state := state } }

/-- How `nv_core_signals_register_loop` ends. -/
inductive SignalStep where
  /-- It fails before it touches the loop. -/
  | unregistered
  /-- `nv_loop_add_event` fails for the signalfd. -/
  | refused
  | attached (fd : Int)

/-- How the steps of `nv_core_business_init` end. -/
structure BusinessSteps where
  loop : InitSteps
  signals : SignalStep
  /-- `nv_threadpool_create` succeeds. -/
  threadPool : Bool
  /-- What the message queue, the modules, the control socket and the console do. -/
  uses : List LoopUse
  /-- `nv_core_modules_init` succeeds. -/
  modules : Bool

/-- `nv_core_business_init`, and whether it returns `NV_OK`. -/
def nvCoreBusinessInit (p : Process) (steps : BusinessSteps) : Process × Bool :=
  let init := nvLoopInit p steps.loop
  if init.2 ≠ 0 then (init.1, false)
  else
    match steps.signals with
    | .unregistered => (init.1, false)
    | .refused => ({ init.1 with loop := { init.1.loop with signalfdFd := -1 } }, false)
    | .attached fd =>
        let p := { init.1 with loop := { init.1.loop with signalfdEv := true, signalfdFd := fd } }
        if steps.threadPool = false then (p, false) else (run use p steps.uses, steps.modules)

/-- What the user's `on_business_init` does. -/
structure HookRun where
  before : List LoopUse
  /-- It calls `nv_core_business_init`, or does not. -/
  business : Option BusinessSteps
  after : List LoopUse
  /-- It returns `NV_OK`. -/
  ok : Bool

def onBusinessInit (p : Process) (hook : HookRun) : Process :=
  let p := run use p hook.before
  let p :=
    match hook.business with
    | none => p
    | some steps => (nvCoreBusinessInit p steps).1
  run use p hook.after

/--
`nv_core_run` from the initialisation of the business to `nv_core_business_cleanup`, with
or without a hook.  `uses` are those of `nv_core_run_loop`.
-/
def nvCoreRun (p : Process) (hook : Option HookRun) (own : BusinessSteps) (uses : List LoopUse) :
    Process :=
  match hook with
  | some hook =>
      let p := onBusinessInit p hook
      if hook.ok = false then p else run use p uses
  | none =>
      let init := nvCoreBusinessInit p own
      if init.2 = false then init.1 else run use init.1 uses

/-- `nv_core_business_cleanup` up to `nv_loop_cleanup`, which is its last call. -/
def nvCoreBusinessCleanup (p : Process) (uses : List LoopUse) : Process :=
  run use p uses

/-- A process that has entered `nv_core_run` with a context of zeros. -/
structure Entered (p : Process) : Prop where
  loop : p.loop = zeroed
  standard : ∀ fd, 0 ≤ fd → fd ≤ 2 → p.fds.owner fd = some .entry
  unused : ∀ fd, p.fds.owner fd ≠ some .loop

/--
`nv_loop_cleanup` closes only descriptors of the loop, each once, and a second call
changes nothing.
-/
structure ClosesOwn (p : Process) : Prop where
  owned : ∃ closed, (nvLoopCleanup p).fds.released = p.fds.released ++ closed ∧
    (∀ release ∈ closed, release.2 = some .loop) ∧ (closed.map Prod.fst).Nodup
  twice : nvLoopCleanup (nvLoopCleanup p) = nvLoopCleanup p

/-- The call of `nv_loop_init` on the way, if there is one: where, and how its steps end. -/
def initCall (p : Process) (hook : Option HookRun) (own : BusinessSteps) :
    Option (Process × InitSteps) :=
  match hook with
  | some hook => hook.business.map fun steps => (run use p hook.before, steps.loop)
  | none => some (p, own.loop)

/-- `nv_loop_init` is called, and does not fail for want of memory. -/
def Initialised (p : Process) (hook : Option HookRun) (own : BusinessSteps) : Prop :=
  ∃ call, initCall p hook own = some call ∧
    ((call.1.grant call.2.epoll).isSome = true → call.2.malloc = true)

/-- The descriptors that `nv_loop_cleanup` closes, in this order. -/
def held (loop : NvLoop) : List Int :=
  (if 0 ≤ loop.wakeupPipe0 then [loop.wakeupPipe0] else []) ++
    (if 0 ≤ loop.wakeupPipe1 then [loop.wakeupPipe1] else []) ++
    (if loop.epollFd ≠ -1 then [loop.epollFd] else [])

/-- The memory that `nv_loop_cleanup` frees, in this order. -/
def holds (loop : NvLoop) : List Block :=
  (if loop.signalfdEv then [.signalfdEv] else []) ++
    (if loop.signalEvents = none then [] else [.signalEvents, .signals]) ++
    (if loop.events then [.events] else [])

theorem nvLoopDetachSignalfd_eq (p : Process) :
    nvLoopDetachSignalfd p =
      { p with
        loop :=
          { p.loop with
            signalfdEv := false
            signalfdFd := if p.loop.signalfdEv then -1 else p.loop.signalfdFd }
        freed := p.freed ++ if p.loop.signalfdEv then [.signalfdEv] else [] } := by
  obtain ⟨⟨_, _, _, _, _, _, signalfdEv, _, _, _, _⟩, _, _⟩ := p
  cases signalfdEv <;> simp [nvLoopDetachSignalfd]

theorem closeWakeupPipe_eq (p : Process) :
    closeWakeupPipe p =
      { p with
        loop :=
          { p.loop with
            wakeupPipe0 := if 0 ≤ p.loop.wakeupPipe0 then -1 else p.loop.wakeupPipe0
            wakeupPipe1 := if 0 ≤ p.loop.wakeupPipe1 then -1 else p.loop.wakeupPipe1
            wakeupInited := false }
        fds := p.fds.releaseAll ((if 0 ≤ p.loop.wakeupPipe0 then [p.loop.wakeupPipe0] else []) ++
          if 0 ≤ p.loop.wakeupPipe1 then [p.loop.wakeupPipe1] else []) } := by
  simp only [closeWakeupPipe]
  by_cases h0 : 0 ≤ p.loop.wakeupPipe0
  · by_cases h1 : 0 ≤ p.loop.wakeupPipe1
    · simp only [h0, h1, if_true]
      rfl
    · simp only [h0, h1, if_true, if_false]
      rfl
  · by_cases h1 : 0 ≤ p.loop.wakeupPipe1
    · simp only [h0, h1, if_true, if_false]
      rfl
    · simp only [h0, h1, if_false]
      rfl

theorem cleanSignals_eq (p : Process) :
    cleanSignals p =
      { p with
        loop :=
          { p.loop with
            signalEvents :=
              p.loop.signalEvents.map (List.map (ListEvent.cleaned p.loop.epollFd)) }
        freed := p.freed ++
          if p.loop.signalEvents = none then [] else [.signalEvents, .signals] } := by
  obtain ⟨⟨_, _, _, _, _, signalEvents, _, _, _, _, _⟩, _, _⟩ := p
  cases signalEvents <;> simp [cleanSignals]

theorem closeEpoll_eq (p : Process) :
    closeEpoll p =
      { p with
        loop := { p.loop with epollFd := -1 }
        fds := p.fds.releaseAll (if p.loop.epollFd ≠ -1 then [p.loop.epollFd] else []) } := by
  obtain ⟨⟨epollFd, _, _, _, _, _, _, _, _, _, _⟩, _, _⟩ := p
  unfold closeEpoll
  by_cases hopen : epollFd = -1
  · subst hopen
    rfl
  · simp only [ne_eq, hopen, not_false_eq_true, if_true]
    rfl

theorem freeEvents_eq (p : Process) :
    freeEvents p =
      { p with
        loop := { p.loop with events := false }
        freed := p.freed ++ if p.loop.events then [.events] else [] } := by
  obtain ⟨⟨_, events, _, _, _, _, _, _, _, _, _⟩, _, _⟩ := p
  cases events <;> simp [freeEvents]

theorem nvLoopCleanup_eq (p : Process) :
    nvLoopCleanup p =
      { loop :=
          { epollFd := -1
            events := false
            state := .stopped
            timers := cleanList p.loop.epollFd p.loop.timers
            idle := cleanList p.loop.epollFd p.loop.idle
            signalEvents :=
              p.loop.signalEvents.map (List.map (ListEvent.cleaned p.loop.epollFd))
            signalfdEv := false
            signalfdFd := if p.loop.signalfdEv then -1 else p.loop.signalfdFd
            wakeupPipe0 := if 0 ≤ p.loop.wakeupPipe0 then -1 else p.loop.wakeupPipe0
            wakeupPipe1 := if 0 ≤ p.loop.wakeupPipe1 then -1 else p.loop.wakeupPipe1
            wakeupInited := false }
        fds := p.fds.releaseAll (held p.loop)
        freed := p.freed ++ holds p.loop } := by
  simp only [nvLoopCleanup, freeEvents_eq, closeEpoll_eq, cleanSignals_eq, closeWakeupPipe_eq,
    nvLoopDetachSignalfd_eq, cleanLists, held, holds, releaseAll_append, List.append_assoc]

theorem cleaned_cleaned (epollFd epollFd' : Int) (ev : ListEvent) :
    (ev.cleaned epollFd).cleaned epollFd' = ev.cleaned epollFd := by
  simp [ListEvent.cleaned]

theorem cleanList_cleanList (epollFd epollFd' : Int) (evs : List ListEvent) :
    cleanList epollFd' (cleanList epollFd evs) = cleanList epollFd evs := by
  cases evs with
  | nil => rfl
  | cons ev rest => exact congrArg (fun ev => [ev]) (cleaned_cleaned epollFd epollFd' ev)

theorem held_nvLoopCleanup (p : Process) : held (nvLoopCleanup p).loop = [] := by
  have hclosed (fd : Int) : ¬ 0 ≤ if 0 ≤ fd then -1 else fd := by
    split_ifs with h
    · decide
    · exact h
  rw [nvLoopCleanup_eq]
  simp only [held, hclosed, if_false, ne_eq, not_true_eq_false, List.append_nil]

theorem holds_nvLoopCleanup_iff (p : Process) :
    holds (nvLoopCleanup p).loop = [] ↔ p.loop.signalEvents = none := by
  rw [nvLoopCleanup_eq]
  cases p.loop.signalEvents with
  | none => exact iff_of_true rfl rfl
  | some evs => exact iff_of_false (List.cons_ne_nil _ _) (Option.some_ne_none evs)

/-- A second call changes nothing unless there are events of signals, which are freed again. -/
theorem nvLoopCleanup_twice_iff (p : Process) :
    nvLoopCleanup (nvLoopCleanup p) = nvLoopCleanup p ↔ p.loop.signalEvents = none := by
  rw [← holds_nvLoopCleanup_iff]
  constructor
  · intro htwice
    have hfreed := congrArg Process.freed htwice
    rw [nvLoopCleanup_eq (nvLoopCleanup p)] at hfreed
    exact List.append_cancel_left (hfreed.trans (List.append_nil _).symm)
  · intro hfreed
    have hsignals := (holds_nvLoopCleanup_iff p).mp hfreed
    have hnegative (fd : Int) :
        (if 0 ≤ if 0 ≤ fd then -1 else fd then -1 else if 0 ≤ fd then -1 else fd) =
          if 0 ≤ fd then -1 else fd := by
      split_ifs <;> rfl
    rw [nvLoopCleanup_eq (nvLoopCleanup p), held_nvLoopCleanup, hfreed, nvLoopCleanup_eq p]
    simp only [cleanList_cleanList, hsignals, Option.map_none, hnegative, List.append_nil,
      Bool.false_eq_true, if_false]
    rfl

/-- The descriptors in the loop's fields are different, and all of them are the loop's. -/
def OwnsHeld (p : Process) : Prop :=
  (held p.loop).Nodup ∧ ∀ fd ∈ held p.loop, p.fds.owner fd = some .loop

theorem closesOwn_iff (p : Process) : ClosesOwn p ↔ OwnsHeld p ∧ p.loop.signalEvents = none := by
  have hreleased : (nvLoopCleanup p).fds.released =
      p.fds.released ++ releases p.fds.owner (held p.loop) := by
    rw [nvLoopCleanup_eq, released_releaseAll]
  have howned_iff := releases_owned_iff Owner.loop p.fds.owner (held p.loop)
  constructor
  · rintro ⟨⟨closed, hclosed, howned, -⟩, htwice⟩
    obtain rfl := List.append_cancel_left (hclosed.symm.trans hreleased)
    exact ⟨howned_iff.mp howned, (nvLoopCleanup_twice_iff p).mp htwice⟩
  · rintro ⟨howns, hsignals⟩
    refine ⟨⟨_, hreleased, howned_iff.mpr howns, ?_⟩, (nvLoopCleanup_twice_iff p).mpr hsignals⟩
    rw [map_fst_releases]
    exact howns.1

theorem grant_spec {p : Process} {fd? : Option Int} {fd : Int} (h : p.grant fd? = some fd) :
    0 ≤ fd ∧ p.fds.owner fd = none :=
  of_decide_eq_true (Option.filter_eq_some_iff.mp h).2

theorem grantPipe_spec {p : Process} {pipe? : Option (Int × Int)} {fd0 fd1 : Int}
    (h : p.grantPipe pipe? = some (fd0, fd1)) :
    (0 ≤ fd0 ∧ p.fds.owner fd0 = none) ∧ (0 ≤ fd1 ∧ p.fds.owner fd1 = none) ∧ fd0 ≠ fd1 :=
  of_decide_eq_true (Option.filter_eq_some_iff.mp h).2

/-- Other code leaves the loop's descriptors alone. -/
theorem held_use (p : Process) (u : LoopUse) : held (use p u).loop = held p.loop := by
  cases u with
  | openFd fd =>
      simp only [use]
      split <;> rfl
  | closeFd fd =>
      simp only [use]
      split_ifs <;> rfl
  | setTimers evs | setIdle evs | addSignal ev | setState state => rfl

theorem owner_use_iff (p : Process) (u : LoopUse) (fd : Int) :
    (use p u).fds.owner fd = some .loop ↔ p.fds.owner fd = some .loop := by
  cases u with
  | openFd fd' =>
      simp only [use]
      cases hgrant : p.grant (some fd') with
      | none => exact Iff.rfl
      | some granted =>
          have hnone := (grant_spec hgrant).2
          by_cases hfd : fd = granted
          · subst hfd
            simp [Table.give, hnone]
          · simp [Table.give, Function.update_of_ne hfd]
  | closeFd fd' =>
      simp only [use]
      split_ifs with hother
      · by_cases hfd : fd = fd'
        · subst hfd
          simp [Table.release, hother]
        · simp [Table.release, Function.update_of_ne hfd]
      · exact Iff.rfl
  | setTimers evs | setIdle evs | addSignal ev | setState state => exact Iff.rfl

theorem ownsHeld_use_iff (p : Process) (u : LoopUse) : OwnsHeld (use p u) ↔ OwnsHeld p := by
  unfold OwnsHeld
  rw [held_use]
  simp only [owner_use_iff]

theorem ownsHeld_run_iff (p : Process) (uses : List LoopUse) :
    OwnsHeld (run use p uses) ↔ OwnsHeld p :=
  iff_of_eq (run_unchanged OwnsHeld (fun p u => propext (ownsHeld_use_iff p u)) p uses)

theorem held_run (p : Process) (uses : List LoopUse) : held (run use p uses).loop = held p.loop :=
  run_unchanged (fun p : Process => held p.loop) held_use p uses

section Init

variable {p : Process}

/-- A loop without descriptors. -/
theorem ownsHeld_of_held_nil (h : held p.loop = []) : OwnsHeld p := by
  rw [OwnsHeld, h]
  exact ⟨List.nodup_nil, fun _ hfd => absurd hfd List.not_mem_nil⟩

theorem ownsHeld_of_held_epoll (epollFd : Int) (h : held p.loop = [epollFd])
    (howner : p.fds.owner epollFd = some .loop) : OwnsHeld p := by
  rw [OwnsHeld, h]
  exact ⟨List.nodup_singleton epollFd, fun fd hfd => List.mem_singleton.mp hfd ▸ howner⟩

theorem ownsHeld_nvLoopInit_iff (p : Process) (steps : InitSteps) :
    OwnsHeld (nvLoopInit p steps).1 ↔
      ((p.grant steps.epoll).isSome = true → steps.malloc = true) := by
  unfold nvLoopInit
  cases hepoll : p.grant steps.epoll with
  | none => exact iff_of_true (ownsHeld_of_held_nil rfl) (fun h => absurd h (by simp))
  | some epollFd =>
      have hopen : epollFd ≠ -1 := by
        have := (grant_spec hepoll).1
        omega
      have howner : (p.fds.give epollFd .loop).owner epollFd = some .loop :=
        Function.update_self ..
      cases hmalloc : steps.malloc with
      | false =>
          refine iff_of_false ?_ (by simp)
          rintro ⟨-, howned⟩
          have hnone := howned epollFd (by simp [held, zeroed, hopen])
          simp [Table.release] at hnone
      | true =>
          refine iff_of_true ?_ (fun _ => rfl)
          simp only [Bool.true_eq_false, if_false]
          split
          · exact ownsHeld_of_held_epoll epollFd (by simp [held, hopen]) howner
          · rename_i fd0 fd1 hpipe
            obtain ⟨⟨hpos0, hfree0⟩, ⟨hpos1, hfree1⟩, hdistinct⟩ := grantPipe_spec hpipe
            clear hpipe
            have hne0 : fd0 ≠ epollFd := ne_of_owned howner hfree0
            have hne1 : fd1 ≠ epollFd := ne_of_owned howner hfree1
            split_ifs with hctl
            · refine ⟨?_, ?_⟩
              · simp [held, hpos0, hpos1, hopen, hdistinct, hne0, hne1]
              · simp [held, hpos0, hpos1, hopen, Table.give, Function.update_apply, hne0.symm,
                  hne1.symm]
            · refine ownsHeld_of_held_epoll epollFd (by simp [held, hopen]) ?_
              simp [Table.release, Table.give, Function.update_apply, hne0.symm, hne1.symm]

/-- The steps that follow do not change what the loop holds. -/
theorem ownsHeld_nvCoreBusinessInit_iff (p : Process) (steps : BusinessSteps) :
    OwnsHeld (nvCoreBusinessInit p steps).1 ↔ OwnsHeld (nvLoopInit p steps.loop).1 := by
  simp only [nvCoreBusinessInit]
  by_cases hfailed : (nvLoopInit p steps.loop).2 ≠ 0
  · rw [if_pos hfailed]
  · rw [if_neg hfailed]
    cases steps.signals with
    | unregistered => exact Iff.rfl
    | refused => exact Iff.rfl
    | attached fd =>
        dsimp only
        split_ifs
        · exact Iff.rfl
        · exact ownsHeld_run_iff _ steps.uses

/-- A loop that was never initialised holds descriptor 0 three times. -/
theorem not_ownsHeld_of_zeroed (h : held p.loop = held zeroed) : ¬ OwnsHeld p := by
  rintro ⟨hnodup, -⟩
  rw [h] at hnodup
  exact absurd hnodup (by decide)

theorem ownsHeld_onBusinessInit_iff (h : p.loop = zeroed) (hook : HookRun) :
    OwnsHeld (onBusinessInit p hook) ↔
      ∃ steps, hook.business = some steps ∧
        (((run use p hook.before).grant steps.loop.epoll).isSome = true →
          steps.loop.malloc = true) := by
  unfold onBusinessInit
  rw [ownsHeld_run_iff]
  cases hook.business with
  | none =>
      refine iff_of_false (not_ownsHeld_of_zeroed ?_) ?_
      · rw [held_run, h]
      · rintro ⟨steps, hsteps, -⟩
        cases hsteps
  | some steps =>
      dsimp only
      rw [ownsHeld_nvCoreBusinessInit_iff, ownsHeld_nvLoopInit_iff]
      constructor
      · intro hmalloc
        exact ⟨steps, rfl, hmalloc⟩
      · rintro ⟨_, hsteps, hmalloc⟩
        cases hsteps
        exact hmalloc

theorem ownsHeld_nvCoreRun_iff (h : p.loop = zeroed) (hook : Option HookRun) (own : BusinessSteps)
    (uses : List LoopUse) : OwnsHeld (nvCoreRun p hook own uses) ↔ Initialised p hook own := by
  cases hook with
  | none =>
      have hinit : OwnsHeld (nvCoreRun p none own uses) ↔ OwnsHeld (nvCoreBusinessInit p own).1 := by
        simp only [nvCoreRun]
        split_ifs
        · exact Iff.rfl
        · exact ownsHeld_run_iff _ uses
      rw [hinit, ownsHeld_nvCoreBusinessInit_iff, ownsHeld_nvLoopInit_iff]
      constructor
      · intro hmalloc
        exact ⟨(p, own.loop), rfl, hmalloc⟩
      · rintro ⟨_, hcall, hmalloc⟩
        cases hcall
        exact hmalloc
  | some hook =>
      have hinit : OwnsHeld (nvCoreRun p (some hook) own uses) ↔
          OwnsHeld (onBusinessInit p hook) := by
        simp only [nvCoreRun]
        split_ifs
        · exact Iff.rfl
        · exact ownsHeld_run_iff _ uses
      rw [hinit, ownsHeld_onBusinessInit_iff h]
      constructor
      · rintro ⟨steps, hsteps, hmalloc⟩
        refine ⟨(run use p hook.before, steps.loop), ?_, hmalloc⟩
        rw [initCall, hsteps]
        rfl
      · rintro ⟨call, hcall, hmalloc⟩
        obtain ⟨steps, hsteps, rfl⟩ := Option.map_eq_some_iff.mp hcall
        exact ⟨steps, hsteps, hmalloc⟩

end Init

/--
For all ways by which `nv_core_run` on a context of zeros reaches
`nv_core_business_cleanup`, with any descriptors that the system gives out and any
failures: `nv_loop_cleanup` closes only descriptors that `nv_loop_init` has obtained for
the loop, each once, and a second call changes nothing, exactly if `nv_loop_init` was
called and did not fail for want of memory, and no events of signals are registered.
-/
theorem nvLoopCleanup_closesOwn_iff
    (p : Process)
    (h : Entered p)
    (hook : Option HookRun)
    (own : BusinessSteps)
    (loopUses cleanupUses : List LoopUse) :
    ClosesOwn (nvCoreBusinessCleanup (nvCoreRun p hook own loopUses) cleanupUses) ↔
      Initialised p hook own ∧
        (nvCoreBusinessCleanup (nvCoreRun p hook own loopUses) cleanupUses).loop.signalEvents =
          none := by
  rw [closesOwn_iff, nvCoreBusinessCleanup, ownsHeld_run_iff, ownsHeld_nvCoreRun_iff h.loop]

/-- A process with the standard descriptors only. -/
def entered : Process where
  loop := zeroed
  fds :=
    { owner := fun fd => if 0 ≤ fd ∧ fd ≤ 2 then some .entry else none
      released := [] }
  freed := []

theorem entered_entered : Entered entered where
  loop := rfl
  standard := fun fd hle hge => if_pos ⟨hle, hge⟩
  unused := by
    intro fd
    show (if 0 ≤ fd ∧ fd ≤ 2 then some Owner.entry else none) ≠ some Owner.loop
    split_ifs <;> decide

/-- The initialisation gets the descriptors 3, 4 and 5; the modules fail, or `malloc`. -/
def someSteps (malloc : Bool) : BusinessSteps where
  loop :=
    { epoll := some 3
      malloc := malloc
      pipe := some (4, 5)
      ctl := true }
  signals := .attached 6
  threadPool := true
  uses := []
  modules := false

/-- When the modules fail, the three descriptors of the loop are closed. -/
theorem nvLoopCleanup_closesOwn_modules :
    let p := nvCoreBusinessCleanup (nvCoreRun entered none (someSteps true) []) []
    (nvLoopCleanup p).fds.released = [(4, some .loop), (5, some .loop), (3, some .loop)] ∧
      ClosesOwn p := by
  refine ⟨by decide, ?_⟩
  exact (nvLoopCleanup_closesOwn_iff entered entered_entered none (someSteps true) [] []).mpr
    ⟨⟨_, rfl, fun _ => rfl⟩, rfl⟩

/--
A hook that fails before it calls `nv_core_business_init`: descriptor 0 is closed, three
times.  And a failure of `malloc` in `nv_loop_init`: the epoll descriptor is closed twice.
-/
theorem standard_input_closed :
    let failed : HookRun := ⟨[], none, [], false⟩
    let p := nvCoreBusinessCleanup (nvCoreRun entered (some failed) (someSteps true) []) []
    let p' := nvCoreBusinessCleanup (nvCoreRun entered none (someSteps false) []) []
    (nvLoopCleanup p).fds.released = [(0, some .entry), (0, none), (0, none)] ∧ ¬ ClosesOwn p ∧
      (nvLoopCleanup p').fds.released = [(3, some .loop), (3, none)] ∧ ¬ ClosesOwn p' := by
  refine ⟨by decide, ?_, by decide, ?_⟩
  · rw [closesOwn_iff]
    exact fun howns => absurd howns.1.1 (by decide)
  · rw [closesOwn_iff]
    exact fun howns => absurd (howns.1.2 3 (by decide)) (by decide)

end Libnv.LoopLife
