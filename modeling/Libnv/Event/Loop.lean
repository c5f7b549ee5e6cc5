import Libnv.Lib.DoublyLinked

/-!
# The timer part of the event loop

Shallow embedding of the timer functions of `src/event/nv_loop.c` and of
`nv_event_trigger` in `src/event/nv_event.c`.

An event is a node of a pointer heap: `E` is the type of event addresses, `L`
the type of loop addresses and `H` the type of handler addresses.  What a
handler does is a parameter `rearms : H → List UInt64`: the delays with which
it calls `nv_loop_add_timer(loop, ev, ms)` on its own event, in order, the
empty list for a handler that does not re-arm.  `unsigned long` is `UInt64`,
so additions wrap exactly as in the source.  The monotonic clock is an
arbitrary stream of readings; the state counts the readings taken.

The two `for` loops over the list carry fuel, since nothing in the source
keeps the links they follow acyclic.  Running out of fuel is `none`.
-/

namespace Libnv.Loop

universe u v w

/-- `nv_event_type_t`. -/
inductive EventType where
  | io
  | timer
  | signal
  | idle
deriving DecidableEq, Repr

/-- The fields of `nv_event_ext_t` that the timer functions use. -/
structure EventExt (E : Type u) (L : Type v) (H : Type w) where
  handler : Option H
  revents : Nat
  timeoutMs : UInt64
  expireTime : UInt64
  next : Option E
  prev : Option E
  loop : Option L
  type : EventType
  triggerCount : UInt64
  lastTrigger : UInt64

def nvEventTimer : Nat := 0x0010

/-- All events, by address. -/
abbrev Heap (E : Type u) (L : Type v) (H : Type w) : Type (max u v w) :=
  E → EventExt E L H

/-- The loop under consideration, together with the events it points to. -/
structure LoopState (E : Type u) (L : Type v) (H : Type w) where
  self : L
  ev : Heap E L H
  head : Option E
  nextTimeout : UInt64
  timersProcessed : UInt64
  clockReads : Nat
  /-- The calls of `nv_event_trigger` so far, each with the handler that it called. -/
  triggers : List (E × Option H)

section Operations

variable {E : Type u} {L : Type v} {H : Type w} [DecidableEq E]

/-- Write some fields of one event. -/
def Heap.modify (h : Heap E L H) (e : E) (f : EventExt E L H → EventExt E L H) : Heap E L H :=
  fun x => if x = e then f (h x) else h x

/-- `p->next = v`. -/
def Heap.setNext (h : Heap E L H) (p : E) (v : Option E) : Heap E L H :=
  fun x => { h x with next := if x = p then v else (h x).next }

/-- `p->prev = v`. -/
def Heap.setPrev (h : Heap E L H) (p : E) (v : Option E) : Heap E L H :=
  fun x => { h x with prev := if x = p then v else (h x).prev }

/-- Push `e` in front of the list at `head`. -/
def nvLoopAddEventToList (h : Heap E L H) (head : Option E) (e : E) :
    Heap E L H × Option E :=
  let h := h.setNext e head
  let h := h.setPrev e none
  let h :=
    match head with
    | some old => h.setPrev old (some e)
    | none => h
  (h, some e)

/-- Unlink `e` through its own `prev` and `next`, without looking it up in the list. -/
def nvLoopRemoveEventFromList (h : Heap E L H) (head : Option E) (e : E) :
    Heap E L H × Option E :=
  let (h, head) :=
    match (h e).prev with
    | some p => (h.setNext p (h e).next, head)
    | none => (h, (h e).next)
  let h :=
    match (h e).next with
    | some n => h.setPrev n (h e).prev
    | none => h
  ((h.setNext e none).setPrev e none, head)

/-- The next clock reading. -/
def nvLoopGetMonotonicTime (clock : Nat → UInt64) (s : LoopState E L H) :
    UInt64 × LoopState E L H :=
  (clock s.clockReads, { s with clockReads := s.clockReads + 1 })

def nvLoopAddTimer (clock : Nat → UInt64) (s : LoopState E L H) (e : E)
    (timeoutMs : UInt64) : LoopState E L H :=
  let (now, s) := nvLoopGetMonotonicTime clock s
  let expire := now + timeoutMs
  let h := s.ev.modify e fun x =>
    { x with
      type := .timer
      timeoutMs := timeoutMs
      loop := some s.self
      expireTime := expire }
  let (h, head) := nvLoopAddEventToList h s.head e
  { s with
    ev := h
    head := head
    nextTimeout :=
      if s.nextTimeout = 0 ∨ expire < s.nextTimeout then expire
      else s.nextTimeout }

/-- The bookkeeping of `nv_event_trigger` before the handler is called. -/
def recordTrigger (clock : Nat → UInt64) (s : LoopState E L H) (e : E)
    (revents : Nat) : LoopState E L H :=
  let (now, s) := nvLoopGetMonotonicTime clock s
  { s with
    ev := s.ev.modify e fun x =>
      { x with
        revents := revents
        triggerCount := x.triggerCount + 1
        lastTrigger := now } }

def LoopState.logTrigger (s : LoopState E L H) (e : E) (called : Option H) : LoopState E L H :=
  { s with triggers := s.triggers ++ [(e, called)] }

/--
Record the event and call its handler if it belongs to a
loop.  A handler's effect on the timers is the sequence of its re-arming calls.
-/
def nvEventTrigger (rearms : H → List UInt64) (clock : Nat → UInt64)
    (s : LoopState E L H) (e : E) (revents : Nat) : LoopState E L H :=
  match (s.ev e).handler with
  | none => s.logTrigger e none
  | some f =>
      let s := recordTrigger clock s e revents
      match (s.ev e).loop with
      | none => s.logTrigger e none
      | some _ =>
          (rearms f).foldl (fun s ms => nvLoopAddTimer clock s e ms) (s.logTrigger e (some f))

/-- The body of the first loop of `nv_loop_process_timers`. -/
def processTimer (rearms : H → List UInt64) (clock : Nat → UInt64) (now : UInt64)
    (s : LoopState E L H) (e : E) : LoopState E L H :=
  if (s.ev e).expireTime ≤ now then
    let s := nvEventTrigger rearms clock s e nvEventTimer
    let s := { s with timersProcessed := s.timersProcessed + 1 }
    let (h, head) := nvLoopRemoveEventFromList s.ev s.head e
    { s with
      ev := h.modify e fun x => { x with loop := none }
      head := head }
  else s

/-- `for (ev = head; ev; ev = next)` with `next` saved before the body. -/
def processTimersLoop (rearms : H → List UInt64) (clock : Nat → UInt64) (now : UInt64) :
    Nat → Option E → LoopState E L H → Option (LoopState E L H)
  | _, none, s => some s
  | 0, some _, _ => none
  | fuel + 1, some e, s =>
      processTimersLoop rearms clock now fuel (s.ev e).next
        (processTimer rearms clock now s e)

/-- The second loop: `next_timeout` becomes the earliest expiry in the list. -/
def updateNextTimeout :
    Nat → Option E → LoopState E L H → Option (LoopState E L H)
  | _, none, s => some s
  | 0, some _, _ => none
  | fuel + 1, some e, s =>
      let expire := (s.ev e).expireTime
      updateNextTimeout fuel (s.ev e).next
        { s with
          nextTimeout :=
            if s.nextTimeout = 0 ∨ expire < s.nextTimeout then expire
            else s.nextTimeout }

def nvLoopProcessTimers (rearms : H → List UInt64) (clock : Nat → UInt64)
    (fuel : Nat) (s : LoopState E L H) : Option (LoopState E L H) := do
  let (now, s) := nvLoopGetMonotonicTime clock s
  let s ← processTimersLoop rearms clock now fuel s.head s
  updateNextTimeout fuel s.head { s with nextTimeout := 0 }

end Operations

section Links

variable {E : Type u} {L : Type v} {H : Type w}

def Heap.next (h : Heap E L H) : E → Option E := fun e => (h e).next

def Heap.prev (h : Heap E L H) : E → Option E := fun e => (h e).prev

/--
The timer list of a loop holds exactly the events `l`: it is doubly linked
from the head, has no duplicates, and every member points back to the loop.
-/
structure WellFormed (s : LoopState E L H) (l : List E) : Prop where
  nodup : l.Nodup
  linked : DoublyLinked.Linked s.ev.next s.ev.prev s.head l
  owned : ∀ e ∈ l, (s.ev e).loop = some s.self

variable [DecidableEq E]

theorem nvLoopAddEventToList_apply (h : Heap E L H) (head : Option E) (e x : E) :
    (nvLoopAddEventToList h head e).1 x =
      { h x with
        next := if x = e then head else (h x).next
        prev :=
          if head = some x then some e
          else if x = e then none
          else (h x).prev } := by
  cases head with
  | none =>
      simp [nvLoopAddEventToList, Heap.setNext, Heap.setPrev]
  | some old =>
      simp [nvLoopAddEventToList, Heap.setNext, Heap.setPrev,
        eq_comm (a := x) (b := old)]

@[simp] theorem nvLoopAddEventToList_head (h : Heap E L H) (head : Option E) (e : E) :
    (nvLoopAddEventToList h head e).2 = some e := rfl

theorem nvLoopAddTimer_apply
    (clock : Nat → UInt64) (s : LoopState E L H) (e x : E) (timeoutMs : UInt64) :
    (nvLoopAddTimer clock s e timeoutMs).ev x =
      { s.ev x with
        type := if x = e then .timer else (s.ev x).type
        timeoutMs := if x = e then timeoutMs else (s.ev x).timeoutMs
        loop := if x = e then some s.self else (s.ev x).loop
        expireTime :=
          if x = e then clock s.clockReads + timeoutMs else (s.ev x).expireTime
        next := if x = e then s.head else (s.ev x).next
        prev :=
          if s.head = some x then some e
          else if x = e then none
          else (s.ev x).prev } := by
  simp only [nvLoopAddTimer, nvLoopGetMonotonicTime, nvLoopAddEventToList_apply, Heap.modify]
  by_cases hx : x = e
  · simp [hx]
  · simp [hx]

theorem Heap.modify_next {f : EventExt E L H → EventExt E L H} (hf : ∀ x, (f x).next = x.next)
    (h : Heap E L H) (e : E) : (h.modify e f).next = h.next := by
  funext x
  by_cases hx : x = e <;> simp [Heap.next, Heap.modify, hx, hf]

theorem Heap.modify_prev {f : EventExt E L H → EventExt E L H} (hf : ∀ x, (f x).prev = x.prev)
    (h : Heap E L H) (e : E) : (h.modify e f).prev = h.prev := by
  funext x
  by_cases hx : x = e <;> simp [Heap.prev, Heap.modify, hx, hf]

theorem linked_addEvent {h : Heap E L H} {head : Option E} {l : List E} {e : E}
    (hnodup : l.Nodup) (hfresh : e ∉ l) (hl : DoublyLinked.Linked h.next h.prev head l) :
    (e :: l).Nodup ∧ DoublyLinked.Linked (nvLoopAddEventToList h head e).1.next
      (nvLoopAddEventToList h head e).1.prev (some e) (e :: l) := by
  have hne : ∀ x ∈ l, x ≠ e := by
    rintro x hx rfl
    exact hfresh hx
  have hhead : head ≠ some e := by
    intro heq
    rw [DoublyLinked.linked_head hl] at heq
    exact hfresh (List.mem_of_head? heq)
  refine DoublyLinked.linked_cons hfresh hnodup ?_ ?_ ?_ ?_ ?_ hl
  · simp [Heap.next, nvLoopAddEventToList_apply]
  · simp [Heap.prev, nvLoopAddEventToList_apply, hhead]
  · intro x hx
    simp [Heap.next, nvLoopAddEventToList_apply, hne x hx]
  · intro x hx hx'
    simp [Heap.prev, nvLoopAddEventToList_apply, hne x hx, hx']
  · intro x hx
    simp [Heap.prev, nvLoopAddEventToList_apply, hx]

theorem nvLoopRemoveEventFromList_apply (h : Heap E L H) (head : Option E) (e x : E) :
    (nvLoopRemoveEventFromList h head e).1 x =
      { h x with
        next :=
          if x = e then none
          else if (h e).prev = some x then (h e).next
          else (h x).next
        prev :=
          if x = e then none
          else if (h e).next = some x then (h e).prev
          else (h x).prev } := by
  unfold nvLoopRemoveEventFromList
  cases hp : (h e).prev with
  | none =>
      cases hn : (h e).next with
      | none => simp [Heap.setNext, Heap.setPrev, hn]
      | some n =>
          simp [Heap.setNext, Heap.setPrev, hp, hn,
            eq_comm (a := x) (b := n)]
  | some p =>
      cases hn : (h e).next with
      | none =>
          simp [Heap.setNext, Heap.setPrev, hn,
            eq_comm (a := x) (b := p)]
      | some n =>
          simp [Heap.setNext, Heap.setPrev, hp, hn,
            eq_comm (a := x) (b := p), eq_comm (a := x) (b := n)]

theorem nvLoopRemoveEventFromList_head (h : Heap E L H) (head : Option E) (e : E) :
    (nvLoopRemoveEventFromList h head e).2 =
      if (h e).prev = none then (h e).next else head := by
  unfold nvLoopRemoveEventFromList
  cases (h e).prev with
  | none => simp
  | some p => simp

theorem nvLoopRemoveEventFromList_next (h : Heap E L H) (head : Option E) (e : E) :
    (nvLoopRemoveEventFromList h head e).1.next =
      DoublyLinked.unlinkNext h.next h.prev e := by
  funext x
  simp only [Heap.next, nvLoopRemoveEventFromList_apply]
  rfl

theorem nvLoopRemoveEventFromList_prev (h : Heap E L H) (head : Option E) (e : E) :
    (nvLoopRemoveEventFromList h head e).1.prev =
      DoublyLinked.unlinkPrev h.next h.prev e := by
  funext x
  simp only [Heap.prev, nvLoopRemoveEventFromList_apply]
  rfl

end Links

end Libnv.Loop
