import Mathlib.Data.Finset.Basic
import Libnv.Event.Loop
import Libnv.Lib.Transition

/-!
# The timer list as a set of pending timers

Outside handlers the timer list is changed by `nv_loop_add_timer`,
`nv_loop_del_timer`, `nv_loop_modify_timer` and `nv_event_cleanup`.  None of them
looks an event up in the list: a node is linked and unlinked through its own
pointers.  The list stays the set of the pending timers exactly as long as

* only events that are not pending are added;
* only pending events are deleted or modified, unless the list is empty;
* the event at the head of the list is not cleaned up.
-/

namespace Libnv.Loop

universe u v w

open DoublyLinked

section Calls

variable {E : Type u} {L : Type v} {H : Type w} [DecidableEq E]

def nvLoopDelTimer (s : LoopState E L H) (e : E) : LoopState E L H :=
  let (h, head) := nvLoopRemoveEventFromList s.ev s.head e
  { s with
    ev := h.modify e fun x => { x with loop := none }
    head := head }

def nvLoopModifyTimer (clock : Nat → UInt64) (s : LoopState E L H) (e : E)
    (timeoutMs : UInt64) : LoopState E L H :=
  let (h, head) := nvLoopRemoveEventFromList s.ev s.head e
  let (now, s) := nvLoopGetMonotonicTime clock { s with ev := h, head := head }
  let expire := now + timeoutMs
  let h := s.ev.modify e fun x =>
    { x with
      timeoutMs := timeoutMs
      expireTime := expire }
  let (h, head) := nvLoopAddEventToList h s.head e
  { s with
    ev := h
    head := head
    nextTimeout :=
      if s.nextTimeout = 0 ∨ expire < s.nextTimeout then expire
      else s.nextTimeout }

/--
`nv_event_cleanup`.  `registered` says that the event is also registered with
`epoll`, so that `nv_loop_del_event` takes it out there and resets its loop.
-/
def nvEventCleanup (h : Heap E L H) (e : E) (registered : Bool) : Heap E L H :=
  let h := if registered then h.modify e fun x => { x with loop := none } else h
  let h :=
    match (h e).next with
    | some n => h.setPrev n (h e).prev
    | none => h
  let h :=
    match (h e).prev with
    | some p => h.setNext p (h e).next
    | none => h
  ((h.setNext e none).setPrev e none).modify e fun x =>
    { x with
      revents := 0
      handler := none }

/-- The calls that change the timer list outside handlers. -/
inductive TimerCall (E : Type u) where
  | add (e : E) (timeoutMs : UInt64)
  | del (e : E)
  | modify (e : E) (timeoutMs : UInt64)
  | cleanup (e : E) (registered : Bool)

def timerCall (clock : Nat → UInt64) (s : LoopState E L H) : TimerCall E → LoopState E L H
  | .add e ms => nvLoopAddTimer clock s e ms
  | .del e => nvLoopDelTimer s e
  | .modify e ms => nvLoopModifyTimer clock s e ms
  | .cleanup e registered => { s with ev := nvEventCleanup s.ev e registered }

/-- What a call means for the set of pending timers. -/
def pendingCall (pending : Finset E) : TimerCall E → Finset E
  | .add e _ => insert e pending
  | .del e => pending.erase e
  | .modify e _ => insert e pending
  | .cleanup e _ => pending.erase e

/-- The loop beside the set of pending timers. -/
structure TimerSystem (E : Type u) (L : Type v) (H : Type w) where
  loop : LoopState E L H
  pending : Finset E

/-- A call on both. -/
def timerStep (clock : Nat → UInt64) (t : TimerSystem E L H) (c : TimerCall E) :
    TimerSystem E L H :=
  ⟨timerCall clock t.loop c, pendingCall t.pending c⟩

/--
The list from the head ends, is doubly linked, and visits exactly the pending
timers, each once.
-/
def RefinesPending (t : TimerSystem E L H) : Prop :=
  ∃ l : List E, l.Nodup ∧
    Linked t.loop.ev.next t.loop.ev.prev t.loop.head l ∧
    ∀ e, e ∈ l ↔ e ∈ t.pending

def TimerCallOk (t : TimerSystem E L H) : TimerCall E → Prop
  | .add e _ => e ∉ t.pending
  | .del e => e ∈ t.pending ∨ t.pending = ∅
  | .modify e _ => e ∈ t.pending ∨ t.pending = ∅
  | .cleanup e _ => e ∈ t.pending → t.loop.head ≠ some e

instance (t : TimerSystem E L H) (c : TimerCall E) : Decidable (TimerCallOk t c) :=
  match c with
  | .add e _ => inferInstanceAs (Decidable (e ∉ t.pending))
  | .del e => inferInstanceAs (Decidable (e ∈ t.pending ∨ t.pending = ∅))
  | .modify e _ => inferInstanceAs (Decidable (e ∈ t.pending ∨ t.pending = ∅))
  | .cleanup e _ => inferInstanceAs (Decidable (e ∈ t.pending → t.loop.head ≠ some e))

end Calls

section Steps

variable {E : Type u} {L : Type v} {H : Type w} [DecidableEq E] {s' : LoopState E L H}

/-- The list of a loop, with all other events unlinked. -/
structure TimerList (s : LoopState E L H) (l : List E) : Prop where
  nodup : l.Nodup
  linked : Linked s.ev.next s.ev.prev s.head l
  unlinked : ∀ e ∉ l, s.ev.next e = none ∧ s.ev.prev e = none

variable {s : LoopState E L H} {l : List E} {e : E}

omit [DecidableEq E] in
/-- The invariant only depends on the links and the head. -/
theorem TimerList.congr (ht : TimerList s l)
    (hnext : s'.ev.next = s.ev.next) (hprev : s'.ev.prev = s.ev.prev)
    (hhead : s'.head = s.head) : TimerList s' l := by
  obtain ⟨hnodup, hlinked, hunlinked⟩ := ht
  refine ⟨hnodup, ?_, ?_⟩
  · rw [hnext, hprev, hhead]
    exact hlinked
  · rw [hnext, hprev]
    exact hunlinked

theorem TimerList.addEvent (ht : TimerList s l) (hfresh : e ∉ l)
    (hev : s'.ev = (nvLoopAddEventToList s.ev s.head e).1) (hhead : s'.head = some e) :
    TimerList s' (e :: l) := by
  obtain ⟨hnodup, hlinked⟩ := linked_addEvent ht.nodup hfresh ht.linked
  refine ⟨hnodup, ?_, ?_⟩
  · rw [hev, hhead]
    exact hlinked
  · intro x hx
    obtain ⟨hxe, hxl⟩ : x ≠ e ∧ x ∉ l := by simpa using hx
    obtain ⟨hnext, hprev⟩ := ht.unlinked x hxl
    have hnot : s.head ≠ some x := by
      intro heq
      rw [linked_head ht.linked] at heq
      exact hxl (List.mem_of_head? heq)
    simp only [Heap.next, Heap.prev] at hnext hprev
    rw [hev]
    simp [Heap.next, Heap.prev, nvLoopAddEventToList_apply, hxe, hnot, hnext, hprev]

/-- What unlinking a member through its own pointers leaves. -/
theorem TimerList.unlink {xs ys : List E} (ht : TimerList s (xs ++ e :: ys))
    (hnext : s'.ev.next = unlinkNext s.ev.next s.ev.prev e)
    (hprev : s'.ev.prev = unlinkPrev s.ev.next s.ev.prev e)
    (hhead : s'.head = if xs = [] then s.ev.next e else s.head) : TimerList s' (xs ++ ys) := by
  obtain ⟨hprevE, hnextE⟩ := linked_member ht.linked
  refine ⟨(List.nodup_middle.mp ht.nodup).of_cons, ?_, ?_⟩
  · rw [hnext, hprev, hhead]
    exact linked_unlink ht.nodup ht.linked
  · intro x hx
    rw [hnext, hprev]
    by_cases hxe : x = e
    · simp [unlinkNext, unlinkPrev, hxe]
    · have hxl : x ∉ xs ++ e :: ys := by
        simpa [hxe] using hx
      obtain ⟨hnextX, hprevX⟩ := ht.unlinked x hxl
      have hpred : s.ev.prev e ≠ some x := by
        rw [hprevE]
        intro heq
        exact hx (List.mem_append_left _ (List.mem_of_getLast? heq))
      have hsucc : s.ev.next e ≠ some x := by
        rw [hnextE]
        intro heq
        exact hx (List.mem_append_right _ (List.mem_of_head? heq))
      simp [unlinkNext, unlinkPrev, hxe, hpred, hsucc, hnextX, hprevX]

theorem TimerList.removeEvent {xs ys : List E} (ht : TimerList s (xs ++ e :: ys))
    (hnext : s'.ev.next = (nvLoopRemoveEventFromList s.ev s.head e).1.next)
    (hprev : s'.ev.prev = (nvLoopRemoveEventFromList s.ev s.head e).1.prev)
    (hhead : s'.head = (nvLoopRemoveEventFromList s.ev s.head e).2) : TimerList s' (xs ++ ys) := by
  have hprevE : (s.ev e).prev = xs.getLast? := (linked_member ht.linked).1
  refine ht.unlink ?_ ?_ ?_
  · rw [hnext, nvLoopRemoveEventFromList_next]
  · rw [hprev, nvLoopRemoveEventFromList_prev]
  · rw [hhead, nvLoopRemoveEventFromList_head, hprevE]
    simp [Heap.next]

theorem nvEventCleanup_links {h : Heap E L H} (hself : h.next e ≠ some e) (registered : Bool) :
    (nvEventCleanup h e registered).next = unlinkNext h.next h.prev e ∧
      (nvEventCleanup h e registered).prev = unlinkPrev h.next h.prev e := by
  have hcase : ∀ h' : Heap E L H, h'.next = h.next → h'.prev = h.prev →
      (nvEventCleanup h' e false).next = unlinkNext h.next h.prev e ∧
        (nvEventCleanup h' e false).prev = unlinkPrev h.next h.prev e := by
    rintro h' hnext hprev
    rw [← hnext] at hself
    rw [← hnext, ← hprev]
    simp only [Heap.next] at hself
    constructor
    · funext x
      cases hn : (h' e).next <;> cases hp : (h' e).prev <;>
        by_cases hx : x = e <;>
        simp_all [nvEventCleanup, Heap.next, Heap.prev, Heap.modify, Heap.setNext,
          Heap.setPrev, unlinkNext, eq_comm]
    · funext x
      cases hn : (h' e).next <;> cases hp : (h' e).prev <;>
        by_cases hx : x = e <;>
        simp_all [nvEventCleanup, Heap.next, Heap.prev, Heap.modify, Heap.setNext,
          Heap.setPrev, unlinkPrev, eq_comm]
  cases registered with
  | false => exact hcase h rfl rfl
  | true =>
      refine hcase (h.modify e fun x => { x with loop := none }) ?_ ?_
      · apply Heap.modify_next
        exact fun _ => rfl
      · apply Heap.modify_prev
        exact fun _ => rfl

end Steps

section Refinement

variable {E : Type u} {L : Type v} {H : Type w} [DecidableEq E]

/-- The list is the set of the pending timers, and all other events are unlinked. -/
def TimerInv (t : TimerSystem E L H) : Prop :=
  ∃ l, TimerList t.loop l ∧ ∀ e, e ∈ l ↔ e ∈ t.pending

variable {t : TimerSystem E L H} {l : List E}

omit [DecidableEq E] in
theorem TimerInv.refines (hi : TimerInv t) : RefinesPending t := by
  obtain ⟨l, hl, hmem⟩ := hi
  exact ⟨l, hl.nodup, hl.linked, hmem⟩

theorem addTimer_list {s : LoopState E L H} (hl : TimerList s l) {e : E} (hfresh : e ∉ l)
    (clock : Nat → UInt64) (ms : UInt64) : TimerList (nvLoopAddTimer clock s e ms) (e :: l) := by
  have hl' : TimerList { s with ev := s.ev.modify e fun x =>
      { x with
        type := .timer
        timeoutMs := ms
        loop := some s.self
        expireTime := clock s.clockReads + ms } } l := by
    refine hl.congr ?_ ?_ rfl
    · apply Heap.modify_next
      exact fun _ => rfl
    · apply Heap.modify_prev
      exact fun _ => rfl
  exact hl'.addEvent hfresh rfl rfl

theorem delTimer_list
    {s : LoopState E L H} {xs ys : List E} {e : E} (hl : TimerList s (xs ++ e :: ys)) :
    TimerList (nvLoopDelTimer s e) (xs ++ ys) := by
  refine hl.removeEvent ?_ ?_ rfl
  · apply Heap.modify_next
    exact fun _ => rfl
  · apply Heap.modify_prev
    exact fun _ => rfl

theorem modifyTimer_list {s : LoopState E L H} {e : E} {l : List E} (hfresh : e ∉ l)
    (hremoved : ∀ s' : LoopState E L H,
      s'.ev.next = (nvLoopRemoveEventFromList s.ev s.head e).1.next →
      s'.ev.prev = (nvLoopRemoveEventFromList s.ev s.head e).1.prev →
      s'.head = (nvLoopRemoveEventFromList s.ev s.head e).2 → TimerList s' l)
    (clock : Nat → UInt64) (ms : UInt64) : TimerList (nvLoopModifyTimer clock s e ms) (e :: l) := by
  have hl : TimerList { s with
      ev := (nvLoopRemoveEventFromList s.ev s.head e).1.modify e fun x =>
        { x with
          timeoutMs := ms
          expireTime := clock s.clockReads + ms }
      head := (nvLoopRemoveEventFromList s.ev s.head e).2 } l := by
    refine hremoved _ ?_ ?_ rfl
    · apply Heap.modify_next
      exact fun _ => rfl
    · apply Heap.modify_prev
      exact fun _ => rfl
  exact hl.addEvent hfresh rfl rfl

theorem removeEvent_empty {s s' : LoopState E L H} {e : E} (hl : TimerList s [])
    (hnext : s'.ev.next = (nvLoopRemoveEventFromList s.ev s.head e).1.next)
    (hprev : s'.ev.prev = (nvLoopRemoveEventFromList s.ev s.head e).1.prev)
    (hhead : s'.head = (nvLoopRemoveEventFromList s.ev s.head e).2) : TimerList s' [] := by
  have hnone : ∀ x, s.ev.next x = none ∧ s.ev.prev x = none :=
    fun x => hl.unlinked x List.not_mem_nil
  have hempty : s.head = none := linked_head hl.linked
  refine hl.congr ?_ ?_ ?_
  · rw [hnext, nvLoopRemoveEventFromList_next]
    funext x
    simp [unlinkNext, hnone]
  · rw [hprev, nvLoopRemoveEventFromList_prev]
    funext x
    simp [unlinkPrev, hnone]
  · have hnextE := (hnone e).1
    have hprevE := (hnone e).2
    simp only [Heap.next, Heap.prev] at hnextE hprevE
    rw [hhead, nvLoopRemoveEventFromList_head, hprevE, hnextE, hempty]
    rfl

theorem cleanup_list
    {s : LoopState E L H} {xs ys : List E} {e : E} (hl : TimerList s (xs ++ e :: ys))
    (hhead : xs ≠ []) (registered : Bool) :
    TimerList { s with ev := nvEventCleanup s.ev e registered } (xs ++ ys) := by
  have hnextE := (linked_member hl.linked).2
  have hself : s.ev.next e ≠ some e := by
    rw [hnextE]
    intro heq
    have hnot := (List.nodup_cons.mp (List.nodup_middle.mp hl.nodup)).1
    exact hnot (List.mem_append_right _ (List.mem_of_head? heq))
  obtain ⟨hnext, hprev⟩ := nvEventCleanup_links hself registered
  refine hl.unlink hnext hprev ?_
  rw [if_neg hhead]

theorem cleanup_unlinked
    {s : LoopState E L H} {e : E} (hl : TimerList s l) (hfresh : e ∉ l) (registered : Bool) :
    TimerList { s with ev := nvEventCleanup s.ev e registered } l := by
  obtain ⟨hnextE, hprevE⟩ := hl.unlinked e hfresh
  have hself : s.ev.next e ≠ some e := by simp [hnextE]
  obtain ⟨hnext, hprev⟩ := nvEventCleanup_links hself registered
  refine hl.congr ?_ ?_ rfl
  · rw [hnext]
    funext x
    by_cases hx : x = e <;> simp [unlinkNext, hx, hnextE, hprevE]
  · rw [hprev]
    funext x
    by_cases hx : x = e <;> simp [unlinkPrev, hx, hnextE, hprevE]

/-- Step lemma: a call that meets the condition keeps the invariant. -/
theorem TimerInv.step
    (clock : Nat → UInt64) (hi : TimerInv t) (c : TimerCall E) (hok : TimerCallOk t c) :
    TimerInv (timerStep clock t c) := by
  obtain ⟨l, hl, hmem⟩ := hi
  -- a pending event has a place in the list, and the rest is what erasing it leaves
  have hsplit : ∀ e ∈ t.pending, ∃ xs ys, l = xs ++ e :: ys ∧ e ∉ xs ++ ys ∧
      ∀ x, x ∈ xs ++ ys ↔ x ∈ t.pending.erase e := by
    intro e he
    obtain ⟨xs, ys, rfl⟩ := List.append_of_mem ((hmem e).mpr he)
    have hnot := (List.nodup_cons.mp (List.nodup_middle.mp hl.nodup)).1
    refine ⟨xs, ys, rfl, hnot, ?_⟩
    intro x
    rw [Finset.mem_erase, ← hmem x]
    by_cases hx : x = e
    · simpa [hx] using hnot
    · simp [hx]
  cases c with
  | add e ms =>
      have hfresh : e ∉ l := fun h => hok ((hmem e).mp h)
      refine ⟨e :: l, addTimer_list hl hfresh clock ms, ?_⟩
      intro x
      simp [timerStep, pendingCall, hmem]
  | del e =>
      rcases hok with he | hempty
      · obtain ⟨xs, ys, rfl, -, hrest⟩ := hsplit e he
        exact ⟨xs ++ ys, delTimer_list hl, hrest⟩
      · obtain rfl : l = [] := by
          refine List.eq_nil_iff_forall_not_mem.mpr fun x hx => ?_
          simpa [hempty] using (hmem x).mp hx
        refine ⟨[], removeEvent_empty hl ?_ ?_ rfl, ?_⟩
        · apply Heap.modify_next
          exact fun _ => rfl
        · apply Heap.modify_prev
          exact fun _ => rfl
        · intro x
          simp [timerStep, pendingCall, hempty]
  | modify e ms =>
      rcases hok with he | hempty
      · obtain ⟨xs, ys, rfl, hnot, hrest⟩ := hsplit e he
        refine ⟨e :: (xs ++ ys), modifyTimer_list hnot
          (fun _ hnext hprev hhead => hl.removeEvent hnext hprev hhead) clock ms, ?_⟩
        intro x
        rw [List.mem_cons, hrest x]
        by_cases hx : x = e <;> simp [timerStep, pendingCall, hx]
      · obtain rfl : l = [] := by
          refine List.eq_nil_iff_forall_not_mem.mpr fun x hx => ?_
          simpa [hempty] using (hmem x).mp hx
        refine ⟨[e], modifyTimer_list List.not_mem_nil
          (fun _ hnext hprev hhead => removeEvent_empty hl hnext hprev hhead) clock ms, ?_⟩
        intro x
        simp [timerStep, pendingCall, hempty]
  | cleanup e registered =>
      by_cases he : e ∈ t.pending
      · obtain ⟨xs, ys, rfl, -, hrest⟩ := hsplit e he
        have hhead : xs ≠ [] := by
          rintro rfl
          exact hok he (linked_head hl.linked)
        exact ⟨xs ++ ys, cleanup_list hl hhead registered, hrest⟩
      · have hfresh : e ∉ l := fun h => he ((hmem e).mp h)
        refine ⟨l, cleanup_unlinked hl hfresh registered, ?_⟩
        intro x
        simp [timerStep, pendingCall, Finset.erase_eq_of_notMem he, hmem]

/-- Adding an event of the list again closes a cycle through it. -/
theorem not_refines_add
    (clock : Nat → UInt64) (hl : TimerList t.loop l) {e : E} (he : e ∈ l) (ms : UInt64) :
    ¬ RefinesPending (timerStep clock t (.add e ms)) := by
  rintro ⟨l', hnodup, ⟨q, hs⟩, -⟩
  have hreach : Reach t.loop.ev.next t.loop.head e := (linked_mem_iff_reach hl.linked).mp he
  have hreach' : Reach (nvLoopAddTimer clock t.loop e ms).ev.next t.loop.head e := by
    refine hreach.congr ?_
    intro y hy
    simp [Heap.next, nvLoopAddTimer_apply, hy]
  cases l' with
  | nil => cases hs.2
  | cons x rest =>
      obtain ⟨hhead, -, htail⟩ := hs
      obtain rfl : e = x := Option.some.inj hhead
      have hnext : (nvLoopAddTimer clock t.loop e ms).ev.next e = t.loop.head := by
        simp [Heap.next, nvLoopAddTimer_apply]
      have hin : e ∈ rest := by
        rw [segment_mem_iff_reach htail]
        exact hnext ▸ hreach'
      exact (List.nodup_cons.mp hnodup).1 hin

omit [DecidableEq E] in
theorem pending_empty_of_head
    (hr : RefinesPending t) (hhead : t.loop.head = none) : t.pending = ∅ := by
  obtain ⟨l, -, hlinked, hmem⟩ := hr
  rw [hhead] at hlinked
  refine Finset.eq_empty_of_forall_notMem fun x hx => ?_
  have hreach := (linked_mem_iff_reach hlinked).mp ((hmem x).mpr hx)
  cases hreach

/-- A call that does not meet the condition leaves something else in the list. -/
theorem TimerInv.callOk (clock : Nat → UInt64) (hi : TimerInv t) (c : TimerCall E)
    (hr : RefinesPending (timerStep clock t c)) : TimerCallOk t c := by
  obtain ⟨l, hl, hmem⟩ := hi
  -- the head after removing an event that is not in the list
  have hlost : ∀ e ∉ l, (nvLoopRemoveEventFromList t.loop.ev t.loop.head e).2 = none := by
    intro e he
    obtain ⟨hnext, hprev⟩ := hl.unlinked e he
    simp only [Heap.next, Heap.prev] at hnext hprev
    rw [nvLoopRemoveEventFromList_head, hprev, hnext]
    rfl
  cases c with
  | add e ms =>
      intro he
      exact not_refines_add clock hl ((hmem e).mpr he) ms hr
  | del e =>
      by_cases he : e ∈ l
      · exact Or.inl ((hmem e).mp he)
      · right
        have hnot : e ∉ t.pending := fun h => he ((hmem e).mpr h)
        have hempty := pending_empty_of_head hr (hlost e he)
        simpa [timerStep, pendingCall, Finset.erase_eq_of_notMem hnot] using hempty
  | modify e ms =>
      by_cases he : e ∈ l
      · exact Or.inl ((hmem e).mp he)
      · right
        have hnot : e ∉ t.pending := fun h => he ((hmem e).mpr h)
        obtain ⟨l', -, hlinked, hmem'⟩ := hr
        refine Finset.eq_empty_of_forall_notMem fun x hx => ?_
        have hreach := (linked_mem_iff_reach hlinked).mp
          ((hmem' x).mpr (Finset.mem_insert_of_mem hx))
        have hnext : (timerStep clock t (.modify e ms)).loop.ev.next e = none := by
          simp [timerStep, timerCall, nvLoopModifyTimer, nvLoopGetMonotonicTime, Heap.next,
            nvLoopAddEventToList_apply, hlost e he]
        have hxe : x ≠ e := fun h => hnot (h ▸ hx)
        generalize hh : (timerStep clock t (.modify e ms)).loop.head = head at hreach
        obtain rfl : head = some e := hh.symm
        cases hreach with
        | here => exact hxe rfl
        | step h =>
            rw [hnext] at h
            cases h
  | cleanup e registered =>
      intro he hhead
      obtain ⟨l', -, hlinked, hmem'⟩ := hr
      have hreach : Reach (timerStep clock t (.cleanup e registered)).loop.ev.next
          (timerStep clock t (.cleanup e registered)).loop.head e := by
        rw [show (timerStep clock t (.cleanup e registered)).loop.head = some e from hhead]
        exact .here e
      have hin := (hmem' e).mp ((linked_mem_iff_reach hlinked).mpr hreach)
      simp [timerStep, pendingCall] at hin

/-- No timer has been added yet, and no event is linked. -/
def Unlinked (s : LoopState E L H) : Prop :=
  s.head = none ∧ ∀ e, s.ev.next e = none ∧ s.ev.prev e = none

/--
In every sequence of calls: after each call the list holds exactly the pending
timers, each once and linked in both directions, if and only if each call meets
the condition.
-/
theorem nvLoop_timers_refine_pending_iff
    (clock : Nat → UInt64)
    (s : LoopState E L H)
    (hs : Unlinked s)
    (cs : List (TimerCall E)) :
    Transition.Along (timerStep clock) (fun t c => RefinesPending (timerStep clock t c))
        ⟨s, ∅⟩ cs ↔
      Transition.Along (timerStep clock) TimerCallOk ⟨s, ∅⟩ cs := by
  have hinit : TimerInv (⟨s, ∅⟩ : TimerSystem E L H) := by
    refine ⟨[], ⟨List.nodup_nil, ⟨none, rfl, hs.1.symm⟩, fun e _ => hs.2 e⟩, ?_⟩
    intro e
    simp
  exact Transition.along_iff_along_of_inv hinit
    (fun t c hi hok => hi.step clock c hok)
    (fun t c hi => ⟨hi.callOk clock c, fun hok => (hi.step clock c hok).refines⟩) cs

end Refinement

/-- A loop without timers, and two events. -/
def emptyLoop : LoopState (Fin 2) Unit Unit where
  self := ()
  ev := fun _ =>
    { handler := some ()
      revents := 0
      timeoutMs := 0
      expireTime := 0
      next := none
      prev := none
      loop := none
      type := .io
      triggerCount := 0
      lastTrigger := 0 }
  head := none
  nextTimeout := 0
  timersProcessed := 0
  clockReads := 0
  triggers := []

theorem emptyLoop_unlinked : Unlinked emptyLoop :=
  ⟨rfl, fun _ => ⟨rfl, rfl⟩⟩

/-- The calls of a careful client. -/
theorem careful_calls_refine :
    Transition.Along (timerStep fun _ => 0)
      (fun t c => RefinesPending (timerStep (fun _ => 0) t c)) ⟨emptyLoop, ∅⟩
      [.add 0 1000, .add 1 2000, .cleanup 0 false, .modify 1 500, .del 1] := by
  rw [nvLoop_timers_refine_pending_iff _ _ emptyLoop_unlinked]
  decide

/-- Deleting a timer that is not pending empties the list. -/
theorem del_of_other_loses_timer :
    ¬ Transition.Along (timerStep fun _ => 0)
      (fun t c => RefinesPending (timerStep (fun _ => 0) t c)) ⟨emptyLoop, ∅⟩
      [.add 0 1000, .del 1] := by
  rintro ⟨-, hdel, -⟩
  have hempty := pending_empty_of_head hdel rfl
  exact absurd hempty (by decide)

end Libnv.Loop
