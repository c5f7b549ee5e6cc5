import Mathlib.Logic.Function.Basic
import Libnv.Lib.Transition

/-!
# Events and the interest list of epoll

`nv_loop_add_event`, `nv_loop_modify_event` and `nv_loop_del_event` of
`src/event/nv_loop.c`, over a kernel whose interest list maps a descriptor to the
mask and the event registered for it.  `epoll_ctl` fails when the kernel says so,
when a descriptor to add is registered or invalid, and when one to change or
delete is not registered; then it changes nothing.

The event holds a second copy of the registration, `active` and `events`, which
the three functions write whether `epoll_ctl` fails or not.  An `int` and a
`uint32_t` of the same bits are not told apart.
-/

namespace Libnv.Epoll

open Transition

universe u

section Functions

/-- The events that a loop is used with, by address, and their distinct descriptors. -/
structure Descriptors (E : Type u) where
  fd : E → Int
  distinct : Function.Injective fd

/-- The fields of `nv_event_ext_t` that the functions write. -/
structure IoEvent where
  events : UInt32
  active : Bool
  /-- `ev->loop` is the loop, and not NULL. -/
  loop : Bool
deriving DecidableEq, Repr

/-- The loop's epoll instance and the events. -/
structure EpollState (E : Type u) where
  epollFd : Int
  ev : E → IoEvent
  interest : Int → Option (UInt32 × E)

variable {E : Type u} [DecidableEq E] (d : Descriptors E)

namespace EpollState

variable (s : EpollState E)

/-- Writes an event. -/
def setEv (e : E) (event : IoEvent) : EpollState E :=
  { s with ev := Function.update s.ev e event }

/-- Writes an entry of the interest list. -/
def register (fd : Int) (entry : Option (UInt32 × E)) : EpollState E :=
  { s with interest := Function.update s.interest fd entry }

end EpollState

/-- `epoll_ctl` with `EPOLL_CTL_ADD`; `ok` is false when it fails for a reason of its own. -/
def epollCtlAdd (s : EpollState E) (ok : Bool) (fd : Int) (mask : UInt32) (e : E) :
    Option (EpollState E) :=
  if ok = true ∧ 0 ≤ fd ∧ s.interest fd = none then some (s.register fd (some (mask, e))) else none

def epollCtlMod (s : EpollState E) (ok : Bool) (fd : Int) (mask : UInt32) (e : E) :
    Option (EpollState E) :=
  if ok = true ∧ s.interest fd ≠ none then some (s.register fd (some (mask, e))) else none

def epollCtlDel (s : EpollState E) (ok : Bool) (fd : Int) : Option (EpollState E) :=
  if ok = true ∧ s.interest fd ≠ none then some (s.register fd none) else none

/-- `nv_loop_add_event`, with its return value. -/
def nvLoopAddEvent (s : EpollState E) (ok : Bool) (e : E) (events : UInt32) :
    EpollState E × Int :=
  if s.epollFd = -1 then (s, -1)
  else
    let s := s.setEv e { events := events, active := true, loop := true }
    match epollCtlAdd s ok (d.fd e) events e with
    | some s => (s, 0)
    | none => (s, -1)

/-- `nv_loop_del_event`, with its return value. -/
def nvLoopDelEvent (s : EpollState E) (ok : Bool) (e : E) : EpollState E × Int :=
  if s.epollFd = -1 then (s, -1)
  else
    let s :=
      if (s.ev e).active = true ∧ d.fd e ≠ -1 then (epollCtlDel s ok (d.fd e)).getD s else s
    (s.setEv e { s.ev e with active := false, loop := false }, 0)

/-- `nv_loop_modify_event`, with its return value. -/
def nvLoopModifyEvent (s : EpollState E) (ok : Bool) (e : E) (events : UInt32) :
    EpollState E × Int :=
  if s.epollFd = -1 then (s, -1)
  else
    let s := s.setEv e { s.ev e with events := events }
    if (s.ev e).active = true ∧ d.fd e ≠ -1 then
      match epollCtlMod s ok (d.fd e) events e with
      | some s => (s, 0)
      | none => (s, -1)
    else (s, 0)

/-- A call of one of the functions, and whether the kernel lets `epoll_ctl` succeed. -/
inductive EventCall (E : Type u) where
  | add (e : E) (events : UInt32) (ok : Bool)
  | modify (e : E) (events : UInt32) (ok : Bool)
  | del (e : E) (ok : Bool)
deriving DecidableEq

def EventCall.event : EventCall E → E
  | .add e _ _ | .modify e _ _ | .del e _ => e

/-- One call. -/
def eventStep (s : EpollState E) : EventCall E → EpollState E
  | .add e events ok => (nvLoopAddEvent d s ok e events).1
  | .modify e events ok => (nvLoopModifyEvent d s ok e events).1
  | .del e ok => (nvLoopDelEvent d s ok e).1

/-- A new epoll instance, and events after `nv_event_init`. -/
def epollCreated (E : Type u) (epollFd : Int) : EpollState E where
  epollFd := epollFd
  ev := fun _ => { events := 0, active := false, loop := false }
  interest := fun _ => none

end Functions

section Agreement

/-- What the event says about its own registration. -/
def IoEvent.mask (event : IoEvent) : Option UInt32 :=
  if event.active then some event.events else none

variable {E : Type u} [DecidableEq E] (d : Descriptors E)

/-- The event is active exactly when it is registered, and then with its own mask. -/
def AgreesAt (s : EpollState E) (e : E) : Prop :=
  ((s.ev e).active = true ↔ ∃ mask, s.interest (d.fd e) = some (mask, e)) ∧
    ∀ mask, s.interest (d.fd e) = some (mask, e) → mask = (s.ev e).events

def Agrees (s : EpollState E) : Prop :=
  ∀ e, AgreesAt d s e

/--
The calls that keep the agreement: `epoll_ctl` succeeds, or there is nothing for
it to change.
-/
def keepsAgreement (s : EpollState E) : EventCall E → Prop
  | .add e events ok =>
      s.epollFd = -1 ∨ (ok = true ∧ 0 ≤ d.fd e ∧ (s.ev e).active = false) ∨
        ((s.ev e).active = true ∧ (s.ev e).events = events)
  | .modify e events ok =>
      s.epollFd = -1 ∨ (s.ev e).active = false ∨ ok = true ∨ (s.ev e).events = events
  | .del e ok => s.epollFd = -1 ∨ (s.ev e).active = false ∨ ok = true

/-- Every entry belongs to the event whose descriptor it is for. -/
structure EpollInv (s : EpollState E) : Prop where
  agrees : Agrees d s
  owned : ∀ fd mask e, s.interest fd = some (mask, e) → d.fd e = fd ∧ 0 ≤ fd

omit [DecidableEq E] in
theorem epollInv_created (epollFd : Int) : EpollInv d (epollCreated E epollFd) where
  agrees := by
    intro e
    simp [AgreesAt, epollCreated]
  owned := by
    intro fd mask e hentry
    cases hentry

variable {d} {s : EpollState E}

omit [DecidableEq E] in
/-- The entry for the descriptor of an event, read off the event. -/
theorem EpollInv.entry (h : EpollInv d s) (e : E) :
    s.interest (d.fd e) = (s.ev e).mask.map fun mask => (mask, e) := by
  obtain ⟨hactive, hmask⟩ := h.agrees e
  unfold IoEvent.mask
  split_ifs with hon
  · obtain ⟨mask, hentry⟩ := hactive.mp hon
    rw [hentry, hmask mask hentry]
    rfl
  · cases hentry : s.interest (d.fd e) with
    | none => rfl
    | some entry =>
        obtain ⟨mask, e'⟩ := entry
        obtain rfl : e' = e := d.distinct (h.owned _ mask e' hentry).1
        exact absurd (hactive.mpr ⟨mask, hentry⟩) hon

omit [DecidableEq E] in
theorem EpollInv.registered (h : EpollInv d s) {e : E} (hactive : (s.ev e).active = true) :
    s.interest (d.fd e) ≠ none ∧ 0 ≤ d.fd e := by
  have hentry : s.interest (d.fd e) = some ((s.ev e).events, e) := by
    rw [h.entry e, IoEvent.mask, if_pos hactive]
    rfl
  exact ⟨by simp [hentry], (h.owned _ _ _ hentry).2⟩

end Agreement

section Calls

variable {E : Type u} [DecidableEq E] {d : Descriptors E} {s : EpollState E}

/-- The state after a call: one event and the entry for its descriptor are written. -/
def EpollState.put (d : Descriptors E) (s : EpollState E) (e : E) (event : IoEvent)
    (entry : Option UInt32) : EpollState E :=
  (s.setEv e event).register (d.fd e) (entry.map fun mask => (mask, e))

theorem agreesAt_put_self (e : E) (event : IoEvent) (entry : Option UInt32) :
    AgreesAt d (s.put d e event entry) e ↔ entry = event.mask := by
  have hev : (s.put d e event entry).ev e = event := Function.update_self ..
  have hinterest : (s.put d e event entry).interest (d.fd e) = entry.map fun mask => (mask, e) :=
    Function.update_self ..
  unfold AgreesAt IoEvent.mask
  rw [hev, hinterest]
  cases event.active <;> cases entry <;> simp

theorem agreesAt_put_other {e e' : E} (hne : e' ≠ e) (event : IoEvent) (entry : Option UInt32) :
    AgreesAt d (s.put d e event entry) e' ↔ AgreesAt d s e' := by
  have hev : (s.put d e event entry).ev e' = s.ev e' := Function.update_of_ne hne ..
  have hinterest : (s.put d e event entry).interest (d.fd e') = s.interest (d.fd e') :=
    Function.update_of_ne (fun hfd => hne (d.distinct hfd)) ..
  unfold AgreesAt
  rw [hev, hinterest]

section Opened

variable (h : EpollInv d s)
include h

theorem EpollInv.agrees_put_iff (e : E) (event : IoEvent) (entry : Option UInt32) :
    Agrees d (s.put d e event entry) ↔ entry = event.mask := by
  refine ⟨fun hagrees => (agreesAt_put_self e event entry).mp (hagrees e), fun hentry e' => ?_⟩
  by_cases hne : e' = e
  · subst hne
    exact (agreesAt_put_self e' event entry).mpr hentry
  · exact (agreesAt_put_other hne event entry).mpr (h.agrees e')

theorem EpollInv.put {e : E} {event : IoEvent} {entry : Option UInt32}
    (hentry : entry = event.mask) (hvalid : entry ≠ none → 0 ≤ d.fd e) :
    EpollInv d (s.put d e event entry) where
  agrees := (h.agrees_put_iff e event entry).mpr hentry
  owned := by
    intro fd mask e' hfound
    by_cases hfd : fd = d.fd e
    · subst hfd
      have hself : (s.put d e event entry).interest (d.fd e) =
          entry.map fun mask => (mask, e) := Function.update_self ..
      rw [hself] at hfound
      obtain ⟨mask', hmask', heq⟩ := Option.map_eq_some_iff.mp hfound
      cases heq
      exact ⟨rfl, hvalid (by simp [hmask'])⟩
    · have hother : (s.put d e event entry).interest fd = s.interest fd :=
        Function.update_of_ne hfd ..
      exact h.owned fd mask e' (hother ▸ hfound)

/-- A call whose `epoll_ctl` changes nothing. -/
theorem EpollInv.setEv_eq_put (e : E) (event : IoEvent) :
    s.setEv e event = s.put d e event (s.ev e).mask := by
  unfold EpollState.put EpollState.register
  rw [← h.entry e]
  simp [EpollState.setEv]

theorem EpollInv.add_eq
    (hopen : s.epollFd ≠ -1) (e : E) (events : UInt32) (ok : Bool) :
    (nvLoopAddEvent d s ok e events).1 = s.put d e { events := events, active := true, loop := true }
      (if ok = true ∧ 0 ≤ d.fd e ∧ (s.ev e).active = false then some events else (s.ev e).mask) := by
  have hfree : s.interest (d.fd e) = none ↔ (s.ev e).active = false := by
    rw [h.entry e, Option.map_eq_none_iff]
    simp [IoEvent.mask]
  simp only [nvLoopAddEvent, hopen, if_false, epollCtlAdd]
  have hinterest : ∀ event, (s.setEv e event).interest (d.fd e) = s.interest (d.fd e) := fun _ => rfl
  simp only [hinterest, hfree]
  split_ifs
  · rfl
  · exact h.setEv_eq_put e _

theorem EpollInv.modify_eq
    (hopen : s.epollFd ≠ -1) (e : E) (events : UInt32) (ok : Bool) :
    (nvLoopModifyEvent d s ok e events).1 = s.put d e { s.ev e with events := events }
      (if (s.ev e).active = true ∧ ok = true then some events else (s.ev e).mask) := by
  have hev : (s.setEv e { s.ev e with events := events }).ev e = { s.ev e with events := events } :=
    Function.update_self ..
  have hinterest : (s.setEv e { s.ev e with events := events }).interest (d.fd e) =
      s.interest (d.fd e) := rfl
  simp only [nvLoopModifyEvent, hopen, if_false, epollCtlMod, hev, hinterest]
  by_cases hactive : (s.ev e).active = true
  · obtain ⟨hfound, hvalid⟩ := h.registered hactive
    have hfd : d.fd e ≠ -1 := by omega
    cases ok with
    | true =>
        simp only [hactive, hfd, hfound, ne_eq, not_false_eq_true, and_self, if_true]
        rfl
    | false =>
        simp only [hactive, hfd, ne_eq, not_false_eq_true, and_self, if_true, false_and,
          Bool.false_eq_true, and_false, if_false]
        exact h.setEv_eq_put e _
  · simp only [hactive, false_and, if_false, Bool.false_eq_true]
    exact h.setEv_eq_put e _

theorem EpollInv.del_eq (hopen : s.epollFd ≠ -1) (e : E) (ok : Bool) :
    (nvLoopDelEvent d s ok e).1 = s.put d e { s.ev e with active := false, loop := false }
      (if (s.ev e).active = true ∧ ok = true then none else (s.ev e).mask) := by
  simp only [nvLoopDelEvent, hopen, if_false, epollCtlDel]
  by_cases hactive : (s.ev e).active = true
  · obtain ⟨hfound, hvalid⟩ := h.registered hactive
    have hfd : d.fd e ≠ -1 := by omega
    cases ok with
    | true =>
        simp only [hactive, hfd, hfound, ne_eq, not_false_eq_true, and_self, if_true, Option.getD_some]
        rfl
    | false =>
        simp only [hactive, hfd, ne_eq, not_false_eq_true, and_self, if_true, false_and,
          Bool.false_eq_true, and_false, if_false, Option.getD_none]
        exact h.setEv_eq_put e _
  · simp only [hactive, false_and, if_false, Bool.false_eq_true]
    exact h.setEv_eq_put e _

/-- What one call does, and when its own event agrees afterwards. -/
theorem EpollInv.step_put (hopen : s.epollFd ≠ -1) (a : EventCall E) :
    ∃ event entry, eventStep d s a = s.put d a.event event entry ∧
      (entry = event.mask ↔ keepsAgreement d s a) ∧ (entry ≠ none → 0 ≤ d.fd a.event) := by
  have hvalid : ∀ e, (s.ev e).mask ≠ none → 0 ≤ d.fd e := by
    intro e hmask
    refine (h.registered ?_).2
    by_contra hactive
    simp [IoEvent.mask, hactive] at hmask
  cases a with
  | add e events ok =>
      refine ⟨_, _, h.add_eq hopen e events ok, ?_, ?_⟩
      · simp only [keepsAgreement, hopen, false_or]
        split_ifs with hadd
        · simp [IoEvent.mask, hadd]
        · simp only [hadd, false_or]
          cases hactive : (s.ev e).active <;> simp [IoEvent.mask, hactive]
      · split_ifs with hadd
        · exact fun _ => hadd.2.1
        · exact hvalid e
  | modify e events ok =>
      refine ⟨_, _, h.modify_eq hopen e events ok, ?_, ?_⟩
      · simp only [keepsAgreement, hopen, false_or]
        cases hactive : (s.ev e).active <;> cases ok <;> simp [IoEvent.mask, hactive]
      · split_ifs with hmod
        · exact fun _ => (h.registered hmod.1).2
        · exact hvalid e
  | del e ok =>
      refine ⟨_, _, h.del_eq hopen e ok, ?_, ?_⟩
      · simp only [keepsAgreement, hopen, false_or]
        cases hactive : (s.ev e).active <;> cases ok <;> simp [IoEvent.mask, hactive]
      · split_ifs with hdel
        · exact fun hnone => absurd rfl hnone
        · exact hvalid e

end Opened

/-- Without an epoll instance the functions return at once. -/
theorem eventStep_closed (d : Descriptors E) (hclosed : s.epollFd = -1) (a : EventCall E) :
    eventStep d s a = s := by
  cases a <;> simp [eventStep, nvLoopAddEvent, nvLoopModifyEvent, nvLoopDelEvent, hclosed]

omit [DecidableEq E] in
theorem keepsAgreement_closed (d : Descriptors E) (hclosed : s.epollFd = -1) (a : EventCall E) :
    keepsAgreement d s a := by
  cases a <;> exact Or.inl hclosed

theorem EpollInv.step (h : EpollInv d s) {a : EventCall E} (hkeeps : keepsAgreement d s a) :
    EpollInv d (eventStep d s a) := by
  by_cases hclosed : s.epollFd = -1
  · rwa [eventStep_closed d hclosed a]
  · obtain ⟨event, entry, hstep, hiff, hvalid⟩ := h.step_put hclosed a
    rw [hstep]
    exact h.put (hiff.mpr hkeeps) hvalid

theorem EpollInv.agrees_step_iff (h : EpollInv d s) (a : EventCall E) :
    Agrees d (eventStep d s a) ↔ keepsAgreement d s a := by
  by_cases hclosed : s.epollFd = -1
  · rw [eventStep_closed d hclosed a]
    exact ⟨fun _ => keepsAgreement_closed d hclosed a, fun _ => h.agrees⟩
  · obtain ⟨event, entry, hstep, hiff, -⟩ := h.step_put hclosed a
    rw [hstep, h.agrees_put_iff, hiff]

/--
For all events with distinct descriptors and all sequences of calls with any
failures of `epoll_ctl`: the events agree with the interest list after every call
exactly when every call that has something to change in it succeeds to do so.
-/
theorem nvLoop_events_agree_iff
    (d : Descriptors E)
    (epollFd : Int)
    (as : List (EventCall E)) :
    Along (eventStep d) (fun s a => Agrees d (eventStep d s a)) (epollCreated E epollFd) as ↔
      Along (eventStep d) (keepsAgreement d) (epollCreated E epollFd) as :=
  along_iff_along_of_inv (epollInv_created d epollFd)
    (fun _ _ hinv hkeeps => hinv.step hkeeps)
    (fun _ a hinv => hinv.agrees_step_iff a) as

/-- An event that epoll refuses is active all the same. -/
theorem nvLoopAddEvent_failed_active :
    let d : Descriptors Unit := ⟨fun _ => 7, fun _ _ _ => rfl⟩
    let s := eventStep d (epollCreated Unit 3) (.add () 1 false)
    (nvLoopAddEvent d (epollCreated Unit 3) false () 1).2 = -1 ∧
      (s.ev ()).active = true ∧ s.interest 7 = none ∧ ¬ Agrees d s := by
  refine ⟨by decide, by decide, by decide, fun hagrees => ?_⟩
  obtain ⟨mask, hentry⟩ := (hagrees ()).1.mp (by decide)
  cases hentry

end Calls

end Libnv.Epoll
