import Libnv.Event.Epoll

/-!
# Delivery of a batch of I/O events

`nv_loop_process_io_events` of `src/event/nv_loop.c` with `nv_event_trigger` and
`nv_event_cleanup` of `src/event/nv_event.c`.  The batch that `epoll_wait` has stored
holds pointers to events, and a handler may add, change, delete or clean up any event
before its entry is reached.  A handler is invoked if the event still has one and its
`loop` is set, and `nv_loop_add_event` sets `loop` whether `epoll_ctl` fails or not.

What a handler does is the list of its calls, with the result of `epoll_ctl` for each.
An event is taken not to be in one of the lists of timers, so that `nv_event_cleanup`
has nothing to unlink.  The fields `revents`, `trigger_count` and `last_trigger`,
which nothing here reads, are left out.
-/

namespace Libnv.Epoll

open Transition

universe u

section Batch

/-- A call that a handler makes, and whether the kernel lets `epoll_ctl` succeed. -/
inductive HandlerCall (E : Type u) where
  | add (e : E) (events : UInt32) (ok : Bool)
  | modify (e : E) (events : UInt32) (ok : Bool)
  | del (e : E) (ok : Bool)
  | cleanup (e : E) (ok : Bool)
deriving DecidableEq

variable {E : Type u}

def HandlerCall.event : HandlerCall E → E
  | .add e _ _ | .modify e _ _ | .del e _ | .cleanup e _ => e

/-- The loop and its events while a batch is processed. -/
structure IoState (E : Type u) where
  epoll : EpollState E
  /-- `ev->handler` is not NULL. -/
  handler : E → Bool
  /-- `loop->stats.events_processed`. -/
  eventsProcessed : Nat
  /-- The events whose handlers were invoked so far. -/
  invoked : List E
  /-- The calls that the handlers made so far, with what they returned. -/
  made : List (HandlerCall E × Int)

/-- `struct epoll_event`. -/
structure EpollResult (E : Type u) where
  /-- `data.ptr`, which is NULL for the wakeup pipe. -/
  ptr : Option E
  events : UInt32
deriving DecidableEq

variable [DecidableEq E] (d : Descriptors E)

/-- `ev->fd`, which `nv_event_cleanup` resets together with the handler. -/
def IoState.fd (s : IoState E) (e : E) : Int :=
  if s.handler e then d.fd e else -1

def nvEventCleanup (s : IoState E) (ok : Bool) (e : E) : IoState E :=
  let epoll :=
    if (s.epoll.ev e).loop = true ∧ (s.epoll.ev e).active = true ∧ 0 ≤ s.fd d e then
      (nvLoopDelEvent d s.epoll ok e).1
    else s.epoll
  { s with
    epoll := epoll.setEv e { epoll.ev e with events := 0, active := false }
    handler := Function.update s.handler e false }

/--
One call of a handler, and what it returns.  For an event without a handler `epoll_ctl`
is asked about descriptor -1, or is not called, and changes nothing.
-/
def handlerCall (s : IoState E) : HandlerCall E → IoState E × Int
  | .add e events ok =>
      let result := nvLoopAddEvent d s.epoll (ok && s.handler e) e events
      ({ s with epoll := result.1 }, result.2)
  | .modify e events ok =>
      let result := nvLoopModifyEvent d s.epoll (ok && s.handler e) e events
      ({ s with epoll := result.1 }, if s.handler e then result.2 else 0)
  | .del e ok =>
      let result := nvLoopDelEvent d s.epoll (ok && s.handler e) e
      ({ s with epoll := result.1 }, result.2)
  | .cleanup e ok => (nvEventCleanup d s ok e, 0)

def handlerStep (s : IoState E) (call : HandlerCall E) : IoState E :=
  { (handlerCall d s call).1 with made := s.made ++ [(call, (handlerCall d s call).2)] }

/-- `nv_event_trigger`, for a handler that makes the calls `calls`. -/
def nvEventTrigger (s : IoState E) (e : E) (calls : List (HandlerCall E)) : IoState E :=
  if s.handler e = true ∧ (s.epoll.ev e).loop = true then
    run (handlerStep d) { s with invoked := s.invoked ++ [e] } calls
  else s

/-- The conversion of `EPOLLIN`, `EPOLLOUT`, `EPOLLERR` and `EPOLLHUP`. -/
def revents (events : UInt32) : UInt32 :=
  (if events &&& 0x001 ≠ 0 then 0x0001 else 0) |||
    (if events &&& 0x004 ≠ 0 then 0x0002 else 0) |||
    (if events &&& 0x008 ≠ 0 then 0x0004 else 0) |||
    (if events &&& 0x010 ≠ 0 then 0x0008 else 0)

/-- One entry of the batch, with the calls that its handler makes if it is invoked. -/
def ioStep (s : IoState E) (entry : EpollResult E × List (HandlerCall E)) : IoState E :=
  match entry.1.ptr with
  -- the wakeup pipe is drained
  | none => s
  | some e =>
      if revents entry.1.events ≠ 0 then
        let s := nvEventTrigger d s e entry.2
        { s with eventsProcessed := s.eventsProcessed + 1 }
      else s

def nvLoopProcessIoEvents (s : IoState E) (batch : List (EpollResult E × List (HandlerCall E))) :
    IoState E :=
  run (ioStep d) s batch

end Batch

section Spec

/-- What the calls of a batch have done to an event. -/
inductive Fate where
  /-- It was not deleted. -/
  | kept
  /-- It was deleted. -/
  | deleted
  /-- It was deleted, and then `nv_loop_add_event` failed for it. -/
  | refused
  /-- It was deleted, and added again since. -/
  | readded
  /-- It was cleaned up. -/
  | cleaned
deriving DecidableEq

/-- It was deleted or cleaned up, and not added again since. -/
def Fate.gone : Fate → Bool
  | .deleted | .refused | .cleaned => true
  | .kept | .readded => false

variable {E : Type u}

/-- The fate of the event that a call is about, after the call. -/
def Fate.next : Fate → HandlerCall E × Int → Fate
  | fate, (.modify _ _ _, _) => fate
  | _, (.cleanup _ _, _) => .cleaned
  | .cleaned, _ => .cleaned
  | _, (.del _ _, _) => .deleted
  | .kept, (.add _ _ _, _) => .kept
  | .readded, (.add _ _ _, _) => .readded
  | .deleted, (.add _ _ _, rc) | .refused, (.add _ _ _, rc) => if rc = 0 then .readded else .refused

variable [DecidableEq E]

def fate (e : E) (made : List (HandlerCall E × Int)) : Fate :=
  made.foldl (fun fate call => if call.1.event = e then fate.next call else fate) .kept

variable (d : Descriptors E)

/--
An entry of the batch invokes no handler for an event that is gone, and one for an event
that was not deleted, if its converted mask is not empty.
-/
structure Delivers (s : IoState E) (entry : EpollResult E × List (HandlerCall E)) : Prop where
  gone : ∀ e, entry.1.ptr = some e → (fate e s.made).gone = true →
    (ioStep d s entry).invoked = s.invoked
  kept : ∀ e, entry.1.ptr = some e → revents entry.1.events ≠ 0 → fate e s.made = .kept →
    (ioStep d s entry).invoked = s.invoked ++ [e]

/-- The entry is not for an event that was deleted and could not be added again. -/
def notRefused (s : IoState E) (entry : EpollResult E × List (HandlerCall E)) : Prop :=
  ∀ e, entry.1.ptr = some e → revents entry.1.events ≠ 0 → fate e s.made ≠ .refused

/-- The event was added and not deleted: it has a handler, and its loop is set. -/
def Live (s : IoState E) (e : E) : Prop :=
  s.handler e = true ∧ (s.epoll.ev e).loop = true

end Spec

section Calls

variable {E : Type u} [DecidableEq E] {d : Descriptors E}

theorem ev_nvLoopAddEvent
    {s : EpollState E} (hopen : s.epollFd ≠ -1) (ok : Bool) (e : E) (events : UInt32) :
    (nvLoopAddEvent d s ok e events).1.ev =
        Function.update s.ev e { events := events, active := true, loop := true } ∧
      (nvLoopAddEvent d s ok e events).1.epollFd = s.epollFd := by
  simp only [nvLoopAddEvent, if_neg hopen, epollCtlAdd]
  split_ifs
  · exact ⟨rfl, rfl⟩
  · exact ⟨rfl, rfl⟩

theorem ev_nvLoopDelEvent {s : EpollState E} (hopen : s.epollFd ≠ -1) (ok : Bool) (e : E) :
    (nvLoopDelEvent d s ok e).1.ev =
        Function.update s.ev e { s.ev e with active := false, loop := false } ∧
      (nvLoopDelEvent d s ok e).1.epollFd = s.epollFd := by
  simp only [nvLoopDelEvent, if_neg hopen, epollCtlDel]
  split_ifs
  · exact ⟨rfl, rfl⟩
  · exact ⟨rfl, rfl⟩
  · exact ⟨rfl, rfl⟩

theorem ev_nvLoopModifyEvent
    {s : EpollState E} (hopen : s.epollFd ≠ -1) (ok : Bool) (e : E) (events : UInt32) :
    (nvLoopModifyEvent d s ok e events).1.ev =
        Function.update s.ev e { s.ev e with events := events } ∧
      (nvLoopModifyEvent d s ok e events).1.epollFd = s.epollFd := by
  simp only [nvLoopModifyEvent, if_neg hopen, epollCtlMod]
  split_ifs
  · exact ⟨rfl, rfl⟩
  · exact ⟨rfl, rfl⟩
  · exact ⟨rfl, rfl⟩

theorem loop_of_ev_eq
    {ev ev' : E → IoEvent} {e : E} {event : IoEvent} (h : ev' = Function.update ev e event) :
    (ev' e).loop = event.loop := by
  rw [h, Function.update_self]

variable {s : IoState E}

theorem ev_nvEventCleanup_of_ne
    (hopen : s.epoll.epollFd ≠ -1) (ok : Bool) {e e' : E} (hne : e' ≠ e) :
    (nvEventCleanup d s ok e).epoll.ev e' = s.epoll.ev e' := by
  unfold nvEventCleanup
  refine (Function.update_of_ne hne ..).trans ?_
  split_ifs
  · rw [(ev_nvLoopDelEvent hopen ok e).1, Function.update_of_ne hne]
  · rfl

theorem epollFd_nvEventCleanup (hopen : s.epoll.epollFd ≠ -1) (ok : Bool) (e : E) :
    (nvEventCleanup d s ok e).epoll.epollFd = s.epoll.epollFd := by
  simp only [nvEventCleanup, EpollState.setEv]
  split_ifs
  · exact (ev_nvLoopDelEvent hopen ok e).2
  · rfl

/-- A call writes its own event only. -/
theorem handlerStep_of_ne
    (d : Descriptors E) (hopen : s.epoll.epollFd ≠ -1) {call : HandlerCall E} {e : E}
    (hne : e ≠ call.event) :
    (handlerStep d s call).handler e = s.handler e ∧
      (handlerStep d s call).epoll.ev e = s.epoll.ev e := by
  cases call with
  | add e' events ok =>
      refine ⟨rfl, ?_⟩
      exact (congrFun (ev_nvLoopAddEvent hopen _ e' events).1 e).trans (Function.update_of_ne hne ..)
  | modify e' events ok =>
      refine ⟨rfl, ?_⟩
      exact (congrFun (ev_nvLoopModifyEvent hopen _ e' events).1 e).trans
        (Function.update_of_ne hne ..)
  | del e' ok =>
      refine ⟨rfl, ?_⟩
      exact (congrFun (ev_nvLoopDelEvent hopen _ e').1 e).trans (Function.update_of_ne hne ..)
  | cleanup e' ok => exact ⟨Function.update_of_ne hne .., ev_nvEventCleanup_of_ne hopen ok hne⟩

theorem epollFd_handlerStep (hopen : s.epoll.epollFd ≠ -1) (call : HandlerCall E) :
    (handlerStep d s call).epoll.epollFd = s.epoll.epollFd := by
  cases call with
  | add e events ok => exact (ev_nvLoopAddEvent hopen _ e events).2
  | modify e events ok => exact (ev_nvLoopModifyEvent hopen _ e events).2
  | del e ok => exact (ev_nvLoopDelEvent hopen _ e).2
  | cleanup e ok => exact epollFd_nvEventCleanup hopen ok e

theorem invoked_handlerStep (s : IoState E) (call : HandlerCall E) :
    (handlerStep d s call).invoked = s.invoked := by
  cases call <;> rfl

end Calls

section Fates

variable {E : Type u} [DecidableEq E] {d : Descriptors E} {s : IoState E} {e : E}

theorem fate_concat (e : E) (made : List (HandlerCall E × Int)) (call : HandlerCall E × Int) :
    fate e (made ++ [call]) =
      if call.1.event = e then (fate e made).next call else fate e made := by
  rw [fate, List.foldl_append]
  rfl

omit [DecidableEq E] in
/-- Nothing brings an event back that was cleaned up. -/
theorem Fate.next_cleaned (call : HandlerCall E × Int) : Fate.cleaned.next call = .cleaned := by
  obtain ⟨call, rc⟩ := call
  cases call <;> rfl

omit [DecidableEq E] in
/-- An event that was not cleaned up is linked to the loop after `nv_loop_add_event`. -/
theorem Fate.next_add
    {fate : Fate} (h : fate ≠ .cleaned) (e : E) (events : UInt32) (ok : Bool) (rc : Int) :
    fate.next (.add e events ok, rc) ≠ .cleaned ∧ fate.next (.add e events ok, rc) ≠ .deleted := by
  cases fate with
  | cleaned => exact absurd rfl h
  | kept | readded => exact ⟨Fate.noConfusion, Fate.noConfusion⟩
  | deleted | refused =>
      simp only [Fate.next]
      split_ifs <;> exact ⟨Fate.noConfusion, Fate.noConfusion⟩

omit [DecidableEq E] in
theorem Fate.next_del {fate : Fate} (h : fate ≠ .cleaned) (e : E) (ok : Bool) (rc : Int) :
    fate.next (.del e ok, rc) = .deleted := by
  cases fate with
  | cleaned => exact absurd rfl h
  | kept | deleted | refused | readded => rfl

omit [DecidableEq E] in
theorem Fate.next_modify (fate : Fate) (e : E) (events : UInt32) (ok : Bool) (rc : Int) :
    fate.next (.modify e events ok, rc) = fate := by
  cases fate <;> rfl

/-- The handler and the loop of an event are as its fate says. -/
structure Follows (s : IoState E) (e : E) : Prop where
  handler : s.handler e = true ↔ fate e s.made ≠ .cleaned
  loop : fate e s.made ≠ .cleaned →
    ((s.epoll.ev e).loop = true ↔ fate e s.made ≠ .deleted)

theorem follows_of_cleaned (hhandler : s.handler e = false) (hfate : fate e s.made = .cleaned) :
    Follows s e where
  handler := by simp [hhandler, hfate]
  loop := fun hne => absurd hfate hne

theorem Follows.handler_eq_false (h : Follows s e) (hfate : fate e s.made = .cleaned) :
    s.handler e = false := by
  rw [← Bool.not_eq_true, h.handler]
  exact not_not_intro hfate

/-- A call about the event itself. -/
theorem Follows.step_self (h : Follows s e) (hopen : s.epoll.epollFd ≠ -1) {call : HandlerCall E}
    (hevent : call.event = e) : Follows (handlerStep d s call) e := by
  have hfate : fate e (handlerStep d s call).made =
      (fate e s.made).next (call, (handlerCall d s call).2) :=
    (fate_concat e s.made _).trans (if_pos hevent)
  by_cases hcleaned : fate e s.made = .cleaned
  · -- whatever is called, the event is without a handler
    rw [hcleaned, Fate.next_cleaned] at hfate
    refine follows_of_cleaned ?_ hfate
    cases call with
    | cleanup e' ok =>
        obtain rfl : e' = e := hevent
        exact Function.update_self ..
    | add e' events ok | modify e' events ok | del e' ok => exact h.handler_eq_false hcleaned
  · have hhandler := h.handler.mpr hcleaned
    cases call with
    | cleanup e' ok =>
        obtain rfl : e' = e := hevent
        exact follows_of_cleaned (Function.update_self ..) hfate
    | add e' events ok =>
        obtain rfl : e' = e := hevent
        have hloop : ((handlerStep d s (.add e' events ok)).epoll.ev e').loop = true :=
          loop_of_ev_eq (ev_nvLoopAddEvent hopen _ e' events).1
        obtain ⟨hnot, hlinked⟩ := Fate.next_add hcleaned e' events ok
          (handlerCall d s (.add e' events ok)).2
        rw [← hfate] at hnot hlinked
        exact ⟨iff_of_true hhandler hnot, fun _ => iff_of_true hloop hlinked⟩
    | del e' ok =>
        obtain rfl : e' = e := hevent
        have hloop : ((handlerStep d s (.del e' ok)).epoll.ev e').loop = false :=
          loop_of_ev_eq (ev_nvLoopDelEvent hopen _ e').1
        rw [Fate.next_del hcleaned] at hfate
        constructor
        · rw [hfate]
          exact iff_of_true hhandler Fate.noConfusion
        · intro _
          rw [hfate]
          exact iff_of_false (ne_true_of_eq_false hloop) (not_not_intro rfl)
    | modify e' events ok =>
        obtain rfl : e' = e := hevent
        have hloop : ((handlerStep d s (.modify e' events ok)).epoll.ev e').loop =
            (s.epoll.ev e').loop :=
          (loop_of_ev_eq (ev_nvLoopModifyEvent hopen _ e' events).1).trans rfl
        rw [Fate.next_modify] at hfate
        constructor
        · rw [hfate]
          exact h.handler
        · intro _
          rw [hfate, hloop]
          exact h.loop hcleaned

/-- Step lemma: a call keeps every event as its fate says. -/
theorem Follows.step (h : Follows s e) (hopen : s.epoll.epollFd ≠ -1) (call : HandlerCall E) :
    Follows (handlerStep d s call) e := by
  by_cases hevent : call.event = e
  · exact h.step_self hopen hevent
  · have hfate : fate e (handlerStep d s call).made = fate e s.made :=
      (fate_concat e s.made _).trans (if_neg hevent)
    have hother := handlerStep_of_ne d hopen (Ne.symm hevent)
    constructor
    · rw [hother.1, hfate]
      exact h.handler
    · rw [hother.2, hfate]
      exact h.loop

/-- The loop is open, and the events of the set `live` are as their fates say. -/
structure BatchInv (live : E → Prop) (s : IoState E) : Prop where
  opened : s.epoll.epollFd ≠ -1
  follows : ∀ e, live e → Follows s e

variable {live : E → Prop}

/-- The counters of the loop and the list of the invoked events do not matter. -/
theorem BatchInv.of_eq (h : BatchInv live s) {s' : IoState E} (hepoll : s'.epoll = s.epoll)
    (hhandler : s'.handler = s.handler) (hmade : s'.made = s.made) : BatchInv live s' := by
  refine ⟨?_, fun e he => ⟨?_, ?_⟩⟩
  · rw [hepoll]
    exact h.opened
  · rw [hhandler, hmade]
    exact (h.follows e he).handler
  · rw [hepoll, hmade]
    exact (h.follows e he).loop

theorem BatchInv.handlerStep (call : HandlerCall E) (h : BatchInv live s) :
    BatchInv live (handlerStep d s call) where
  opened := by
    rw [epollFd_handlerStep h.opened]
    exact h.opened
  follows := fun e he => (h.follows e he).step h.opened call

theorem BatchInv.run_calls (h : BatchInv live s) (calls : List (HandlerCall E)) :
    BatchInv live (run (Epoll.handlerStep d) s calls) :=
  run_invariant (fun _ call h => h.handlerStep call) h calls

theorem BatchInv.trigger (h : BatchInv live s) (e : E) (calls : List (HandlerCall E)) :
    BatchInv live (nvEventTrigger d s e calls) := by
  unfold nvEventTrigger
  split_ifs
  · have hinvoked : BatchInv live { s with invoked := s.invoked ++ [e] } := h.of_eq rfl rfl rfl
    exact hinvoked.run_calls calls
  · exact h

theorem BatchInv.ioStep (h : BatchInv live s) (entry : EpollResult E × List (HandlerCall E)) :
    BatchInv live (ioStep d s entry) := by
  unfold Epoll.ioStep
  cases entry.1.ptr with
  | none => exact h
  | some e =>
      have htrigger : BatchInv live (nvEventTrigger d s e entry.2) := h.trigger e entry.2
      dsimp only
      split_ifs
      · exact htrigger.of_eq rfl rfl rfl
      · exact h

theorem invoked_run_calls (s : IoState E) (calls : List (HandlerCall E)) :
    (run (handlerStep d) s calls).invoked = s.invoked :=
  run_unchanged IoState.invoked invoked_handlerStep s calls

/-- An entry invokes the handler of its event if there is one and the loop is set. -/
theorem invoked_ioStep
    (d : Descriptors E) (s : IoState E) {entry : EpollResult E × List (HandlerCall E)}
    (hptr : entry.1.ptr = some e) :
    (ioStep d s entry).invoked =
      if revents entry.1.events ≠ 0 ∧ s.handler e = true ∧ (s.epoll.ev e).loop = true then
        s.invoked ++ [e]
      else s.invoked := by
  unfold ioStep
  rw [hptr]
  dsimp only
  by_cases hmask : revents entry.1.events ≠ 0
  · rw [if_pos hmask, nvEventTrigger]
    by_cases hlive : s.handler e = true ∧ (s.epoll.ev e).loop = true
    · rw [if_pos hlive, if_pos ⟨hmask, hlive⟩]
      exact invoked_run_calls _ entry.2
    · rw [if_neg hlive, if_neg fun h => hlive h.2]
  · rw [if_neg hmask, if_neg fun h => hmask h.1]

/-- The handler of an event is invoked unless it is deleted or cleaned up. -/
theorem BatchInv.invoked_iff (h : BatchInv live s) (he : live e) :
    s.handler e = true ∧ (s.epoll.ev e).loop = true ↔
      fate e s.made ≠ .cleaned ∧ fate e s.made ≠ .deleted := by
  rw [(h.follows e he).handler]
  exact and_congr_right (h.follows e he).loop

/-- An entry delivers as it should exactly if its event was not refused. -/
theorem BatchInv.delivers_iff (h : BatchInv live s) {entry : EpollResult E × List (HandlerCall E)}
    (hlive : ∀ e, entry.1.ptr = some e → live e) : Delivers d s entry ↔ notRefused s entry := by
  constructor
  · intro hdelivers e hptr hmask hrefused
    have hgone := hdelivers.gone e hptr (by rw [hrefused]; rfl)
    have hcalled := (h.invoked_iff (hlive e hptr)).mpr (by rw [hrefused]; decide)
    rw [invoked_ioStep d s hptr, if_pos ⟨hmask, hcalled⟩] at hgone
    exact absurd hgone (by simp)
  · intro hnot
    refine ⟨fun e hptr hgone => ?_, fun e hptr hmask hkept => ?_⟩
    · rw [invoked_ioStep d s hptr, if_neg]
      rintro ⟨hmask, hcalled⟩
      obtain ⟨hcleaned, hdeleted⟩ := (h.invoked_iff (hlive e hptr)).mp hcalled
      cases hfate : fate e s.made with
      | cleaned => exact hcleaned hfate
      | deleted => exact hdeleted hfate
      | refused => exact hnot e hptr hmask hfate
      | kept | readded =>
          rw [hfate] at hgone
          cases hgone
    · have hcalled := (h.invoked_iff (hlive e hptr)).mpr (by rw [hkept]; decide)
      rw [invoked_ioStep d s hptr, if_pos ⟨hmask, hcalled⟩]

end Fates

section Results

variable {E : Type u} [DecidableEq E]

/--
For all events with distinct descriptors, all batches of `epoll_wait` for events that
were added and not deleted, and all calls of the handlers with any results of
`epoll_ctl`: no handler is invoked for an event that was deleted or cleaned up before
and not added again since, and the handler of an event that was not deleted is invoked
once for every entry with a mask, exactly if no entry with a mask is for an event for
which, after it was deleted, the last call was an `nv_loop_add_event` that failed.
-/
theorem nvLoopProcessIoEvents_delivers_iff
    (d : Descriptors E)
    (s : IoState E)
    (hopen : s.epoll.epollFd ≠ -1)
    (hmade : s.made = [])
    (batch : List (EpollResult E × List (HandlerCall E)))
    (hlive : ∀ entry ∈ batch, ∀ e, entry.1.ptr = some e → Live s e) :
    Along (ioStep d) (Delivers d) s batch ↔ Along (ioStep d) notRefused s batch := by
  have hinv : BatchInv (Live s) s := by
    refine ⟨hopen, fun e he => ?_⟩
    have hkept : fate e s.made = .kept := by rw [hmade]; rfl
    constructor
    · rw [hkept]
      exact iff_of_true he.1 Fate.noConfusion
    · rw [hkept]
      exact fun _ => iff_of_true he.2 Fate.noConfusion
  exact along_iff_along (fun _ entry h _ _ => h.ioStep entry)
    (fun _ _ h hentry => h.delivers_iff hentry) hinv hlive

def twoDescriptors : Descriptors Bool where
  fd := fun e => if e then 6 else 5
  distinct := by
    intro e e'
    cases e <;> cases e' <;> simp

def twoEvents : IoState Bool where
  epoll :=
    { epollFd := 3
      ev := fun _ => { events := 1, active := true, loop := true }
      interest := fun fd =>
        if fd = 5 then some (1, false) else if fd = 6 then some (1, true) else none }
  handler := fun _ => true
  eventsProcessed := 0
  invoked := []
  made := []

/-- Both events are readable, and the handler of the first one makes some calls. -/
def bothReadable (calls : List (HandlerCall Bool)) :
    List (EpollResult Bool × List (HandlerCall Bool)) :=
  [(⟨some false, 1⟩, calls), (⟨some true, 1⟩, [])]

/-- The first handler deletes the second event, which is not delivered. -/
theorem nvLoopProcessIoEvents_delivers_del :
    Along (ioStep twoDescriptors) (Delivers twoDescriptors) twoEvents
        (bothReadable [.del true true]) ∧
      (nvLoopProcessIoEvents twoDescriptors twoEvents (bothReadable [.del true true])).invoked =
        [false] := by
  refine ⟨(nvLoopProcessIoEvents_delivers_iff twoDescriptors twoEvents (by decide) rfl _
    fun entry _ e _ => ⟨rfl, rfl⟩).mpr ⟨?_, ?_, trivial⟩, by decide⟩
  · intro e _ _
    cases e <;> decide
  · intro e _ _
    cases e <;> decide

/--
The first handler deletes the second event and tries to add it again, which fails.  The
handler of the second event is invoked all the same.
-/
theorem refused_event_delivered :
    let calls : List (HandlerCall Bool) := [.del true true, .add true 1 false]
    let done := nvLoopProcessIoEvents twoDescriptors twoEvents (bothReadable calls)
    done.invoked = [false, true] ∧
      done.made = [(.del true true, 0), (.add true 1 false, -1)] ∧
      ¬ Along (ioStep twoDescriptors) (Delivers twoDescriptors) twoEvents (bothReadable calls) := by
  refine ⟨by decide, by decide, fun hdelivers => ?_⟩
  have hgone := hdelivers.2.1.gone true rfl (by decide)
  exact absurd hgone (by decide)

end Results

end Libnv.Epoll
