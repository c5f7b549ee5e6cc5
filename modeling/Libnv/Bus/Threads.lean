import Libnv.Bus.Pubsub
import Mathlib.Algebra.BigOperators.Fin

/-!
# Threads that publish, subscribe and unsubscribe

Every section under `pubsub_mutex`, every test of the wait in
`nv_core_pubsub_unsubscribe`, and the entry and the exit of a handler is one
step.  A thread is a stack of calls, the innermost first: a handler may call the
functions again, on any subscription.

The payloads play no part here.  Subscriptions are not freed before
`nv_core_pubsub_cleanup`, which is not modelled, and the counters do not overflow.
-/

namespace Libnv.Bus

universe u

/-- Where `nv_core_pubsub_publish` stands with the first entry of its snapshot. -/
inductive DeliverPhase where
  /-- The handler is called next. -/
  | entry
  /-- The handler runs. -/
  | running
  /-- The handler has returned, `calls` is still to be decremented. -/
  | exited
deriving DecidableEq

/-- A call in progress; subscriptions are named by their identifiers. -/
inductive Frame where
  /-- `nv_core_pubsub_subscribe`, with the subscription allocated. -/
  | subscribe (topic : CString)
  /-- `nv_core_pubsub_publish`, before its snapshot. -/
  | publish (topic : CString)
  /-- `nv_core_pubsub_publish`, with the entries it has not released. -/
  | deliver (topic : CString) (entries : List Nat) (phase : DeliverPhase)
  /-- `nv_core_pubsub_publish_ipc`. -/
  | publishIpc (topic : CString)
  /-- `nv_core_pubsub_unsubscribe`, before it takes the mutex. -/
  | unsubscribe (sub : Nat)
  /-- `nv_core_pubsub_unsubscribe`, in `pthread_cond_wait`. -/
  | waiting (sub : Nat)
deriving DecidableEq

/-- The entries of a snapshot that a call has taken and not released. -/
def Frame.entries : Frame → List Nat
  | .deliver _ entries _ => entries
  | _ => []

/-- The subscription whose handler a call is running. -/
def Frame.running? : Frame → Option Nat
  | .deliver _ (id :: _) .running => some id
  | _ => none

theorem Frame.mem_entries_of_running {frame : Frame} {id : Nat} (h : frame.running? = some id) :
    id ∈ frame.entries := by
  unfold Frame.running? at h
  split at h
  · simp_all [Frame.entries]
  · simp at h

/-- The context, the threads, and the subscriptions whose `unsubscribe` has returned. -/
structure BusState (Tid : Type u) where
  ctx : PubsubCtx
  threads : Tid → List Frame
  returned : List Nat

inductive Call where
  | subscribe (topic : CString)
  | publish (topic : CString)
  | unsubscribe (sub : Nat)
deriving DecidableEq

/-- A thread calls a function, or takes its next step; `alloc` is what `calloc` does. -/
inductive BusAction (Tid : Type u) where
  | call (t : Tid) (call : Call)
  | step (t : Tid) (alloc : Bool)
deriving DecidableEq

section Steps

variable {Tid : Type u} [DecidableEq Tid]

def callsOf (subs : List Sub) (id : Nat) : Int :=
  match subs.find? fun sub => sub.id = id with
  | some sub => sub.calls
  | none => 0

namespace BusState

/-- Replaces the stack of a thread. -/
def goto (st : BusState Tid) (t : Tid) (frames : List Frame) : BusState Tid :=
  { st with threads := Function.update st.threads t frames }

/-- Changes every subscription. -/
def mapSubs (st : BusState Tid) (f : Sub → Sub) : BusState Tid :=
  { st with ctx := { st.ctx with subs := st.ctx.subs.map f } }

/-- The locked section of `nv_core_pubsub_subscribe`. -/
def addSub (st : BusState Tid) (topic : CString) : BusState Tid :=
  let sub : Sub := { id := st.ctx.nextId, topic := topic, active := true, calls := 0 }
  { st with ctx := { st.ctx with subs := sub :: st.ctx.subs, nextId := st.ctx.nextId + 1 } }

/-- The test `sub->calls > 0`: wait, or return. -/
def testCalls (st : BusState Tid) (t : Tid) (id : Nat) (rest : List Frame) : BusState Tid :=
  if 0 < callsOf st.ctx.subs id then st.goto t (.waiting id :: rest)
  else { st with returned := id :: st.returned }.goto t rest

@[simp] theorem goto_threads_self (st : BusState Tid) (t : Tid) (frames : List Frame) :
    (st.goto t frames).threads t = frames := by
  simp [goto]

theorem goto_threads_other (st : BusState Tid) {t t' : Tid} (h : t' ≠ t) (frames : List Frame) :
    (st.goto t frames).threads t' = st.threads t' := by
  simp [goto, h]

end BusState

/-- `sub->calls++` for the subscriptions of the snapshot. -/
def countCall (topic : CString) (sub : Sub) : Sub :=
  if sub.active ∧ sub.topic = topic then { sub with calls := sub.calls + 1 } else sub

def releaseCall (id : Nat) (sub : Sub) : Sub :=
  if sub.id = id then { sub with calls := sub.calls - 1 } else sub

/-- `sub->active = 0`. -/
def deactivate (id : Nat) (sub : Sub) : Sub :=
  if sub.id = id then { sub with active := false } else sub

def frameStep (st : BusState Tid) (t : Tid) (alloc : Bool) (rest : List Frame) :
    Frame → BusState Tid
  | .subscribe topic => (st.addSub topic).goto t rest
  | .publish topic =>
      if snapshot st.ctx.subs topic = [] then st.goto t (.publishIpc topic :: rest)
      else if alloc then
        (st.mapSubs (countCall topic)).goto t
          (.deliver topic ((snapshot st.ctx.subs topic).map Sub.id) .entry :: rest)
      else st.goto t rest
  | .deliver topic entries .entry => st.goto t (.deliver topic entries .running :: rest)
  | .deliver topic entries .running => st.goto t (.deliver topic entries .exited :: rest)
  | .deliver topic [] .exited => st.goto t (.publishIpc topic :: rest)
  | .deliver topic (id :: entries) .exited =>
      (st.mapSubs (releaseCall id)).goto t
        (if entries = [] then .publishIpc topic :: rest
        else .deliver topic entries .entry :: rest)
  | .publishIpc _ => st.goto t rest
  | .unsubscribe id =>
      (st.mapSubs (deactivate id)).testCalls t id rest
  | .waiting id => st.testCalls t id rest

/-- A thread can call a function when it is idle or inside a handler. -/
def canCall : List Frame → Bool
  | [] => true
  | .deliver _ _ .running :: _ => true
  | _ => false

/-- A handle comes from `nv_core_pubsub_subscribe`. -/
def Call.valid (ctx : PubsubCtx) : Call → Bool
  | .subscribe topic | .publish topic => topic ≠ CString.empty
  | .unsubscribe id => ctx.subs.any fun sub => sub.id = id

def Call.frame : Call → Frame
  | .subscribe topic => .subscribe topic
  | .publish topic => .publish topic
  | .unsubscribe id => .unsubscribe id

/-- One action of a thread; a call that is not possible changes nothing. -/
def busStep (st : BusState Tid) : BusAction Tid → BusState Tid
  | .call t call =>
      if canCall (st.threads t) ∧ call.valid st.ctx then st.goto t (call.frame :: st.threads t)
      else st
  | .step t alloc =>
      match st.threads t with
      | [] => st
      | frame :: rest => frameStep st t alloc rest frame

/-- No thread has called anything, and nothing is subscribed. -/
def busInit (Tid : Type u) : BusState Tid where
  ctx := emptyBroker
  threads := fun _ => []
  returned := []

end Steps

section Counting

variable {Tid : Type u} [DecidableEq Tid] [Fintype Tid]

/-- The entries that a thread has taken and not released. -/
def entriesOf (frames : List Frame) : List Nat :=
  frames.flatMap Frame.entries

/-- How many entries for a subscription some publish has taken and not released. -/
def BusState.pending (st : BusState Tid) (id : Nat) : Nat :=
  ∑ t, (entriesOf (st.threads t)).count id

/-- A handler of the subscription is in progress. -/
def BusState.HandlerRunning (st : BusState Tid) (id : Nat) : Prop :=
  ∃ t, ∃ frame ∈ st.threads t, frame.running? = some id

end Counting

end Libnv.Bus
