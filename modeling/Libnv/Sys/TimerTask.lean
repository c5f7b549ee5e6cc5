import Libnv.Lib.Resources
import Libnv.Lib.SlotTable
import Libnv.Lib.Transition
import Mathlib.Data.List.Nodup
import Mathlib.Data.Set.Insert

/-!
# The timer manager

Embedding of `src/base/sys/nv_timer_task.c`.  The manager keeps its timers in a
table of slots, and a slot whose `fd` is not positive is free.  The system gives
out the lowest descriptor that is not open.

`C` is the type of callbacks and `D` that of the data passed to them.  The lock is
not held while a callback runs, so that a callback may call the functions of the
manager; what it calls is a list of calls, with the results of the system calls in
them.  `size` is left out, since nothing reads it.

A timer carries the number of the call that created it, which the source does not
have: it tells timers apart that use the same slot and the same descriptor one
after the other.
-/

namespace Libnv.TimerTask

open Resources SlotTable Transition

universe u v

section Model

/-- `nv_timer_kind_t`. -/
inductive TimerKind where
  | oneshot
  | periodic
deriving DecidableEq

/-- `nv_timer_t`, with the number of the timer. -/
structure Timer (C : Type u) (D : Type v) where
  fd : Int
  callback : Option C
  userData : Option D
  kind : TimerKind
  serial : Nat
deriving DecidableEq

/-- `nv_timer_manager_t`, with what the system knows of descriptors. -/
structure TimerManager (C : Type u) (D : Type v) where
  timers : List (Timer C D)
  /-- The open descriptors that are not in the table. -/
  others : List Nat
  /-- How many timers have been created. -/
  created : Nat
deriving DecidableEq

structure TimerTimes where
  seconds : Int
  nanoseconds : Int
  intervalSeconds : Int
  intervalNanoseconds : Int
deriving DecidableEq

/-- What the system calls of `nv_timer_manager_create_timer` do. -/
structure CreateOs where
  timerfdCreate : Bool
  settime : Bool
  epollAdd : Bool
deriving DecidableEq

def TimerTimes.kind (times : TimerTimes) : TimerKind :=
  if times.intervalSeconds ≠ 0 ∨ times.intervalNanoseconds ≠ 0 then .periodic else .oneshot

def TimerTimes.arms (times : TimerTimes) : Bool :=
  times.seconds ≠ 0 ∨ times.nanoseconds ≠ 0

variable {C : Type u} {D : Type v}

/-- A slot as `calloc` leaves it. -/
def emptySlot : Timer C D where
  fd := 0
  callback := none
  userData := none
  kind := .oneshot
  serial := 0

def nvTimerManagerInit (capacity : Nat) (others : List Nat) : TimerManager C D where
  timers := List.replicate capacity emptySlot
  others := others
  created := 0

def nvTimerManagerIndexFree (m : TimerManager C D) : Option Nat :=
  m.timers.findIdx? fun t => t.fd ≤ 0

/-- The descriptors of the timers in the table. -/
def fds (timers : List (Timer C D)) : List Int :=
  (timers.map Timer.fd).filter fun fd => 0 < fd

/-- What `timerfd_create` returns. -/
def TimerManager.newFd (m : TimerManager C D) : Nat :=
  lowestFree (m.others ++ (fds m.timers).map Int.toNat)

def nvTimerManagerCreateTimer (m : TimerManager C D) (times : TimerTimes) (callback : Option C)
    (userData : Option D) (os : CreateOs) : TimerManager C D × Int :=
  match callback with
  | none => (m, -1)
  | some cb =>
      match nvTimerManagerIndexFree m with
      -- "NV: timer capacity full"
      | none => (m, -1)
      | some idx =>
          if ¬ os.timerfdCreate then (m, -1)
          else if ¬ os.settime then (m, -1)
          else
            let timer : Timer C D := ⟨m.newFd, some cb, userData, times.kind, m.created⟩
            if ¬ os.epollAdd then
              ({ m with timers := m.timers.set idx { timer with fd := -1 } }, -1)
            else
              ({ timers := m.timers.set idx timer
                 -- the slot of the descriptor 0 counts as free
                 others := if m.newFd = 0 then 0 :: m.others else m.others
                 created := m.created + 1 }, m.newFd)

def nvTimerManagerCancel (m : TimerManager C D) (timerFd : Int) : TimerManager C D × Int :=
  if timerFd ≤ 0 then (m, -1)
  else
    match m.timers.findIdx? fun t => t.fd = timerFd with
    | some i => ({ m with timers := m.timers.set i { (emptySlot : Timer C D) with fd := -1 } }, 0)
    | none => (m, -1)

/-- `settime` says whether `timerfd_settime` succeeds. -/
def nvTimerManagerModify (m : TimerManager C D) (timerFd : Int) (times : TimerTimes)
    (settime : Bool) : TimerManager C D × Int :=
  if timerFd ≤ 0 then (m, -1)
  else
    match m.timers.findIdx? fun t => t.fd = timerFd with
    | some i =>
        if settime then ({ m with timers := m.timers.modify i ({ · with kind := times.kind }) }, 0)
        else (m, -1)
    | none => (m, -1)

inductive TimerCall (C : Type u) (D : Type v) where
  | create (times : TimerTimes) (callback : Option C) (userData : Option D) (os : CreateOs)
  | cancel (timerFd : Int)
  | modify (timerFd : Int) (times : TimerTimes) (settime : Bool)

def applyCall (m : TimerManager C D) : TimerCall C D → TimerManager C D
  | .create times callback userData os =>
      (nvTimerManagerCreateTimer m times callback userData os).1
  | .cancel timerFd => (nvTimerManagerCancel m timerFd).1
  | .modify timerFd times settime => (nvTimerManagerModify m timerFd times settime).1

/-- An event that `epoll_wait` returns. -/
structure Ready (C : Type u) (D : Type v) where
  /-- `evs[i].data.u32`. -/
  idx : Nat
  /-- `read` returns the number of expirations. -/
  readOk : Bool
  /-- What the callback calls, if it is called. -/
  calls : List (TimerCall C D)

/-- What `epoll_wait` returns. -/
inductive EpollWait (C : Type u) (D : Type v) where
  | interrupted
  | failed
  | ready (events : List (Ready C D))

/-- The timer that the pass copies out of the table and finds expired. -/
def TimerManager.fires (m : TimerManager C D) (event : Ready C D) : Option (Timer C D) :=
  m.timers[event.idx]?.filter fun t => 0 < t.fd ∧ event.readOk

/-- `if (cb) cb(ud)`. -/
def runCallback (m : TimerManager C D) (t : Timer C D) (calls : List (TimerCall C D)) :
    TimerManager C D :=
  if t.callback.isSome then run applyCall m calls else m

/-- An iteration of the loop of `nv_timer_manager_process_once`. -/
def processEvent (m : TimerManager C D) (event : Ready C D) : TimerManager C D :=
  match m.fires event with
  | none => m
  | some t =>
      let m := runCallback m t event.calls
      if t.kind = .oneshot then (nvTimerManagerCancel m t.fd).1 else m

/-- The array of events has room for 64. -/
def nvTimerManagerProcessOnce (m : TimerManager C D) : EpollWait C D → TimerManager C D × Int
  | .interrupted => (m, 0)
  | .failed => (m, -1)
  | .ready events => (run processEvent m events, events.length)

end Model

variable {C : Type u} {D : Type v}

section Table

/-- The timers in the table. -/
def registered (timers : List (Timer C D)) : Set (Timer C D) :=
  { t | t ∈ timers ∧ 0 < t.fd }

def findTimer (timers : List (Timer C D)) (fd : Int) : Option (Timer C D) :=
  if fd ≤ 0 then none else timers.find? fun t => t.fd = fd

variable {left right timers : List (Timer C D)} {old new t : Timer C D} {fd : Int}

@[simp] theorem mem_registered : t ∈ registered timers ↔ t ∈ timers ∧ 0 < t.fd := Iff.rfl

theorem mem_fds_iff : fd ∈ fds timers ↔ ∃ t ∈ registered timers, t.fd = fd := by
  simp only [fds, List.mem_filter, List.mem_map, mem_registered, decide_eq_true_eq]
  constructor
  · rintro ⟨⟨t, ht, rfl⟩, hfd⟩
    exact ⟨t, ⟨ht, hfd⟩, rfl⟩
  · rintro ⟨t, ⟨ht, hfd⟩, rfl⟩
    exact ⟨⟨t, ht, rfl⟩, hfd⟩

theorem fds_split :
    fds (left ++ old :: right) =
      if 0 < old.fd then fds left ++ old.fd :: fds right else fds left ++ fds right := by
  by_cases hfd : 0 < old.fd
  · simp [fds, hfd]
  · simp [fds, hfd]

section Write

variable (hdistinct : (fds (left ++ old :: right)).Nodup)
include hdistinct

/-- The descriptor of a slot is in no other slot. -/
theorem fd_not_mem_rest (hfd : 0 < old.fd) : old.fd ∉ fds left ++ fds right := by
  rw [fds_split, if_pos hfd, List.nodup_middle] at hdistinct
  exact (List.nodup_cons.mp hdistinct).1

/-- A slot may be written if its new descriptor is in no other slot. -/
theorem nodup_fds_write
    (hnew : 0 < new.fd → new.fd ∉ fds left ++ fds right) : (fds (left ++ new :: right)).Nodup := by
  have hrest : (fds left ++ fds right).Nodup := by
    rw [fds_split] at hdistinct
    by_cases hfd : 0 < old.fd
    · rw [if_pos hfd, List.nodup_middle] at hdistinct
      exact (List.nodup_cons.mp hdistinct).2
    · rwa [if_neg hfd] at hdistinct
  rw [fds_split]
  by_cases hfd : 0 < new.fd
  · rw [if_pos hfd, List.nodup_middle]
    exact List.nodup_cons.mpr ⟨hnew hfd, hrest⟩
  · rwa [if_neg hfd]

theorem mem_registered_write :
    t ∈ registered (left ++ new :: right) ↔
      (t = new ∧ 0 < new.fd) ∨ (t ∈ registered (left ++ old :: right) ∧ t ≠ old) := by
  have hold : ∀ u ∈ left ++ right, 0 < u.fd → u ≠ old := by
    rintro u hu hfd rfl
    refine fd_not_mem_rest hdistinct hfd ?_
    rw [List.mem_append, mem_fds_iff, mem_fds_iff]
    exact (List.mem_append.mp hu).imp (fun h => ⟨u, ⟨h, hfd⟩, rfl⟩) fun h => ⟨u, ⟨h, hfd⟩, rfl⟩
  have hsplit : ∀ u, t ∈ left ++ u :: right ↔ t = u ∨ t ∈ left ++ right := by
    intro u
    simp only [List.mem_append, List.mem_cons]
    tauto
  simp only [mem_registered, hsplit]
  constructor
  · rintro ⟨rfl | ht, hfd⟩
    · exact .inl ⟨rfl, hfd⟩
    · exact .inr ⟨⟨.inr ht, hfd⟩, hold t ht hfd⟩
  · rintro (⟨rfl, hfd⟩ | ⟨⟨rfl | ht, hfd⟩, hne⟩)
    · exact ⟨.inl rfl, hfd⟩
    · exact absurd rfl hne
    · exact ⟨.inr ht, hfd⟩

theorem registered_write_free
    (hfree : old.fd ≤ 0) :
    registered (left ++ new :: right) =
      if 0 < new.fd then insert new (registered (left ++ old :: right))
      else registered (left ++ old :: right) := by
  have hne : ∀ u ∈ registered (left ++ old :: right), u ≠ old := by
    rintro u hu rfl
    exact Int.not_lt.mpr hfree hu.2
  ext t
  rw [mem_registered_write hdistinct]
  split_ifs with hfd
  · rw [Set.mem_insert_iff]
    exact or_congr (and_iff_left hfd) (and_iff_left_of_imp (hne t))
  · rw [or_iff_right fun h => hfd h.2]
    exact and_iff_left_of_imp (hne t)

end Write

/-- Descriptors tell the timers in the table apart. -/
theorem eq_of_fd_eq {s : Timer C D} (hdistinct : (fds timers).Nodup) (hs : s ∈ registered timers)
    (ht : t ∈ registered timers) (hfd : s.fd = t.fd) : s = t := by
  obtain ⟨left, right, rfl⟩ := List.append_of_mem ht.1
  by_contra hne
  refine fd_not_mem_rest hdistinct ht.2 ?_
  have hmem : s ∈ left ++ right := by
    have := hs.1
    simp only [List.mem_append, List.mem_cons] at this ⊢
    tauto
  rw [List.mem_append, mem_fds_iff, mem_fds_iff]
  exact (List.mem_append.mp hmem).imp (fun h => ⟨s, ⟨h, hs.2⟩, hfd⟩) fun h => ⟨s, ⟨h, hs.2⟩, hfd⟩

/-- A search for a descriptor: the slot that is found, or none has the descriptor. -/
theorem findTimer_cases (hpos : 0 < fd) (timers : List (Timer C D)) :
    (∃ left old right, timers = left ++ old :: right ∧ old.fd = fd ∧
      timers.findIdx? (fun t => t.fd = fd) = some left.length ∧ findTimer timers fd = some old) ∨
    (timers.findIdx? (fun t => t.fd = fd) = none ∧ findTimer timers fd = none ∧
      ∀ t ∈ registered timers, t.fd ≠ fd) := by
  rw [findTimer, if_neg (Int.not_le.mpr hpos)]
  cases hidx : timers.findIdx? fun t => t.fd = fd with
  | some i =>
      obtain ⟨left, old, right, rfl, rfl, hold, hleft⟩ := split_of_findIdx? hidx
      exact .inl ⟨left, old, right, rfl, of_decide_eq_true hold, rfl, find?_first hleft hold⟩
  | none =>
      have hnone : ∀ t ∈ timers, ¬ t.fd = fd := by
        intro t ht
        simpa using List.findIdx?_eq_none_iff.mp hidx t ht
      refine .inr ⟨rfl, List.find?_eq_none.mpr fun t ht => by simpa using hnone t ht, ?_⟩
      intro t ht
      exact hnone t ht.1

theorem findTimer_some (h : findTimer timers fd = some t) : t ∈ registered timers ∧ t.fd = fd := by
  unfold findTimer at h
  split_ifs at h with hpos
  have hfd : t.fd = fd := by simpa using List.find?_some h
  exact ⟨⟨List.mem_of_find?_eq_some h, by omega⟩, hfd⟩

theorem findTimer_of_mem (hdistinct : (fds timers).Nodup) (ht : t ∈ registered timers) :
    findTimer timers t.fd = some t := by
  obtain ⟨left, old, right, rfl, hfd, -, hfind⟩ | ⟨-, -, hnone⟩ := findTimer_cases ht.2 timers
  · rw [hfind, eq_of_fd_eq hdistinct (findTimer_some hfind).1 ht hfd]
  · exact absurd rfl (hnone t ht)

end Table

section Events

/-- What a call does to the timers. -/
inductive TimerEvent (C : Type u) (D : Type v) where
  | created (t : Timer C D)
  | cancelled (t : Timer C D)
  | modified (t : Timer C D) (times : TimerTimes)

/-- The timer that a call creates, cancels or modifies, if it succeeds. -/
def TimerCall.event (m : TimerManager C D) : TimerCall C D → Option (TimerEvent C D)
  | .create times callback userData os =>
      let r := nvTimerManagerCreateTimer m times callback userData os
      (findTimer r.1.timers r.2).map .created
  | .cancel timerFd => (findTimer m.timers timerFd).map .cancelled
  | .modify timerFd times settime =>
      if settime then (findTimer m.timers timerFd).map (.modified · times) else none

inductive Changes (m m' : TimerManager C D) : Option (TimerEvent C D) → Prop where
  | none
      (timers : registered m'.timers = registered m.timers)
      (created : m.created ≤ m'.created) :
      Changes m m' none
  | created
      (t : Timer C D)
      (serial : t.serial = m.created)
      (callback : t.callback.isSome)
      (timers : registered m'.timers = insert t (registered m.timers))
      (created : m'.created = m.created + 1) :
      Changes m m' (some (.created t))
  | cancelled
      (t : Timer C D)
      (mem : t ∈ registered m.timers)
      (timers : registered m'.timers = registered m.timers \ {t})
      (created : m'.created = m.created) :
      Changes m m' (some (.cancelled t))
  | modified
      (t : Timer C D)
      (times : TimerTimes)
      (mem : t ∈ registered m.timers)
      (timers : registered m'.timers =
        insert { t with kind := times.kind } (registered m.timers \ {t}))
      (created : m'.created = m.created) :
      Changes m m' (some (.modified t times))

variable {m : TimerManager C D}

theorem Changes.refl (m : TimerManager C D) : Changes m m Option.none :=
  .none rfl (Nat.le_refl _)

theorem nvTimerManagerCancel_spec (hdistinct : (fds m.timers).Nodup) (fd : Int) :
    Changes m (nvTimerManagerCancel m fd).1 ((findTimer m.timers fd).map .cancelled) ∧
      (fds (nvTimerManagerCancel m fd).1.timers).Nodup := by
  by_cases hpos : fd ≤ 0
  · rw [nvTimerManagerCancel, findTimer, if_pos hpos, if_pos hpos]
    exact ⟨.refl m, hdistinct⟩
  · rw [nvTimerManagerCancel, if_neg hpos]
    obtain ⟨timers, others, created⟩ := m
    obtain ⟨left, old, right, rfl, hfd, hidx, hfind⟩ | ⟨hidx, hfind, -⟩ :=
      findTimer_cases (Int.not_le.mp hpos) timers
    · simp only [hidx, hfind, set_split, Option.map_some]
      have hold : old ∈ registered (left ++ old :: right) := (findTimer_some hfind).1
      refine ⟨.cancelled old hold ?_ rfl, nodup_fds_write hdistinct ?_⟩
      · ext t
        rw [mem_registered_write hdistinct]
        simp
      · simp
    · simp only [hidx, hfind, Option.map_none]
      exact ⟨.refl _, hdistinct⟩

theorem nvTimerManagerModify_spec (hdistinct : (fds m.timers).Nodup) (fd : Int) (times : TimerTimes)
    (settime : Bool) :
    Changes m (nvTimerManagerModify m fd times settime).1
        (if settime then (findTimer m.timers fd).map (.modified · times) else none) ∧
      (fds (nvTimerManagerModify m fd times settime).1.timers).Nodup := by
  by_cases hpos : fd ≤ 0
  · rw [nvTimerManagerModify, findTimer, if_pos hpos, if_pos hpos, Option.map_none, ite_self]
    exact ⟨.refl m, hdistinct⟩
  · rw [nvTimerManagerModify, if_neg hpos]
    obtain ⟨timers, others, created⟩ := m
    cases settime with
    | false =>
        have hsame : ∀ i : Option Nat,
            (match i with
            | some _ => ((⟨timers, others, created⟩, -1) : TimerManager C D × Int)
            | none => (⟨timers, others, created⟩, -1)).1 = ⟨timers, others, created⟩ := by
          intro i
          cases i <;> rfl
        simp only [Bool.false_eq_true, if_false, hsame]
        exact ⟨.refl _, hdistinct⟩
    | true =>
        obtain ⟨left, old, right, rfl, hfd, hidx, hfind⟩ | ⟨hidx, hfind, -⟩ :=
          findTimer_cases (Int.not_le.mp hpos) timers
        · have hold : old ∈ registered (left ++ old :: right) := (findTimer_some hfind).1
          simp only [hidx, hfind, if_true, modify_split, Option.map_some]
          refine ⟨.modified old times hold ?_ rfl, nodup_fds_write hdistinct ?_⟩
          · ext t
            rw [mem_registered_write hdistinct]
            simp [hold.2]
          · have hrest : old.fd ∉ fds left ++ fds right := fd_not_mem_rest hdistinct hold.2
            exact fun _ => hrest
        · simp only [hidx, hfind, if_true, Option.map_none]
          exact ⟨.refl _, hdistinct⟩

theorem newFd_not_mem (m : TimerManager C D) : (m.newFd : Int) ∉ fds m.timers := by
  intro hmem
  refine lowestFree_not_mem (m.others ++ (fds m.timers).map Int.toNat) ?_
  exact List.mem_append_right _ (List.mem_map.mpr ⟨_, hmem, rfl⟩)

theorem nvTimerManagerCreateTimer_spec (hdistinct : (fds m.timers).Nodup) (times : TimerTimes)
    (callback : Option C) (userData : Option D) (os : CreateOs) :
    Changes m (nvTimerManagerCreateTimer m times callback userData os).1
        (TimerCall.event m (.create times callback userData os)) ∧
      (fds (nvTimerManagerCreateTimer m times callback userData os).1.timers).Nodup := by
  unfold TimerCall.event nvTimerManagerCreateTimer
  cases callback with
  | none => exact ⟨.refl m, hdistinct⟩
  | some cb =>
      cases hidx : nvTimerManagerIndexFree m with
      | none => exact ⟨.refl m, hdistinct⟩
      | some idx =>
          have hnew := newFd_not_mem m
          generalize m.newFd = newFd at hnew ⊢
          obtain ⟨timers, others, created⟩ := m
          obtain ⟨left, old, right, rfl, rfl, hold, -⟩ := split_of_findIdx? hidx
          have hfree : old.fd ≤ 0 := of_decide_eq_true hold
          have hrest : (newFd : Int) ∉ fds left ++ fds right := by
            rwa [fds_split, if_neg (Int.not_lt.mpr hfree)] at hnew
          obtain ⟨timerfdCreate, settime, epollAdd⟩ := os
          cases timerfdCreate with
          | false => exact ⟨.refl _, hdistinct⟩
          | true =>
          cases settime with
          | false => exact ⟨.refl _, hdistinct⟩
          | true =>
          simp only [set_split, not_true_eq_false, if_false]
          cases epollAdd with
          | false =>
              refine ⟨.none ?_ (Nat.le_refl _), nodup_fds_write hdistinct (by simp)⟩
              exact registered_write_free hdistinct hfree
          | true =>
              simp only [not_true_eq_false, if_false]
              generalize htimer : (⟨newFd, some cb, userData, times.kind, created⟩ : Timer C D) = timer
              have hfd : timer.fd = newFd := htimer ▸ rfl
              have hdistinct' : (fds (left ++ timer :: right)).Nodup :=
                nodup_fds_write hdistinct fun _ => hfd ▸ hrest
              refine ⟨?_, hdistinct'⟩
              by_cases hpos : 0 < timer.fd
              · have hmem : timer ∈ registered (left ++ timer :: right) := ⟨by simp, hpos⟩
                rw [← hfd, findTimer_of_mem hdistinct' hmem]
                refine .created timer (htimer ▸ rfl) (htimer ▸ rfl) ?_ rfl
                exact (registered_write_free hdistinct hfree).trans (if_pos hpos)
              · rw [← hfd, findTimer, if_pos (Int.not_lt.mp hpos)]
                refine .none ?_ (Nat.le_succ _)
                exact (registered_write_free hdistinct hfree).trans (if_neg hpos)

theorem applyCall_spec (hdistinct : (fds m.timers).Nodup) (call : TimerCall C D) :
    Changes m (applyCall m call) (call.event m) ∧ (fds (applyCall m call).timers).Nodup := by
  cases call with
  | create times callback userData os =>
      exact nvTimerManagerCreateTimer_spec hdistinct times callback userData os
  | cancel timerFd => exact nvTimerManagerCancel_spec hdistinct timerFd
  | modify timerFd times settime => exact nvTimerManagerModify_spec hdistinct timerFd times settime

end Events

section Reachable

/-- Descriptors and numbers tell the timers in the table apart, and each has a callback. -/
structure Sound (m : TimerManager C D) : Prop where
  distinct : (fds m.timers).Nodup
  serial_inj : ∀ s ∈ registered m.timers, ∀ t ∈ registered m.timers, s.serial = t.serial → s = t
  serial_lt : ∀ t ∈ registered m.timers, t.serial < m.created
  callback : ∀ t ∈ registered m.timers, t.callback.isSome

variable {m m' : TimerManager C D} {event : Option (TimerEvent C D)}

/-- Timers may go away. -/
theorem Sound.subset (h : Sound m) (htimers : registered m'.timers ⊆ registered m.timers)
    (hcreated : m.created ≤ m'.created) (hdistinct : (fds m'.timers).Nodup) : Sound m' where
  distinct := hdistinct
  serial_inj s hs t ht heq := h.serial_inj s (htimers hs) t (htimers ht) heq
  serial_lt t ht := Nat.lt_of_lt_of_le (h.serial_lt t (htimers ht)) hcreated
  callback t ht := h.callback t (htimers ht)

/-- A timer may be added, or put in the place of another. -/
theorem Sound.insert {t : Timer C D} {rest : Set (Timer C D)} (h : Sound m)
    (hrest : rest ⊆ registered m.timers) (htimers : registered m'.timers = Insert.insert t rest)
    (hnew : ∀ s ∈ rest, s.serial ≠ t.serial) (hserial : t.serial < m'.created)
    (hcallback : t.callback.isSome) (hcreated : m.created ≤ m'.created)
    (hdistinct : (fds m'.timers).Nodup) : Sound m' := by
  refine ⟨hdistinct, ?_, ?_, ?_⟩
  all_goals rw [htimers]
  · rintro s (rfl | hs) u (rfl | hu) heq
    · rfl
    · exact absurd heq.symm (hnew u hu)
    · exact absurd heq (hnew s hs)
    · exact h.serial_inj s (hrest hs) u (hrest hu) heq
  · rintro s (rfl | hs)
    · exact hserial
    · exact Nat.lt_of_lt_of_le (h.serial_lt s (hrest hs)) hcreated
  · rintro s (rfl | hs)
    · exact hcallback
    · exact h.callback s (hrest hs)

/-- The number of a new timer is not in use. -/
theorem Sound.ne_created (h : Sound m) : ∀ t ∈ registered m.timers, t.serial ≠ m.created :=
  fun t ht heq => Nat.lt_irrefl _ (heq ▸ h.serial_lt t ht)

/-- A timer has its number for itself. -/
theorem Sound.serial_ne {t : Timer C D} (h : Sound m) (ht : t ∈ registered m.timers) :
    ∀ s ∈ registered m.timers \ {t}, s.serial ≠ t.serial :=
  fun s hs heq => hs.2 (h.serial_inj s hs.1 t ht heq)

theorem Sound.changes (h : Sound m) (hchanges : Changes m m' event)
    (hdistinct : (fds m'.timers).Nodup) : Sound m' := by
  cases hchanges with
  | none htimers hcreated => exact h.subset htimers.subset hcreated hdistinct
  | created t hserial hcallback htimers hcreated =>
      refine h.insert subset_rfl htimers ?_ ?_ hcallback ?_ hdistinct
      · exact hserial ▸ h.ne_created
      · omega
      · omega
  | cancelled t ht htimers hcreated =>
      exact h.subset (htimers ▸ fun s hs => hs.1) hcreated.ge hdistinct
  | modified t times ht htimers hcreated =>
      refine h.insert (fun s hs => hs.1) htimers (h.serial_ne ht) ?_ (h.callback t ht) hcreated.ge
        hdistinct
      exact hcreated ▸ h.serial_lt t ht

theorem Sound.applyCall (m : TimerManager C D) (call : TimerCall C D) (h : Sound m) :
    Sound (applyCall m call) := by
  obtain ⟨hchanges, hdistinct⟩ := applyCall_spec h.distinct call
  exact h.changes hchanges hdistinct

theorem Sound.cancel (h : Sound m) (fd : Int) : Sound (nvTimerManagerCancel m fd).1 :=
  h.applyCall m (.cancel fd)

theorem Sound.processEvent (m : TimerManager C D) (event : Ready C D) (h : Sound m) :
    Sound (processEvent m event) := by
  unfold TimerTask.processEvent
  cases m.fires event with
  | none => exact h
  | some t =>
      have hcallback : Sound (runCallback m t event.calls) := by
        unfold runCallback
        split_ifs
        · exact run_invariant Sound.applyCall h event.calls
        · exact h
      dsimp only
      split_ifs
      · exact hcallback.cancel t.fd
      · exact hcallback

/-- What happens to a manager: its functions are called, and other code opens and closes. -/
inductive ManagerAction (C : Type u) (D : Type v) where
  | call (call : TimerCall C D)
  | processOnce (wait : EpollWait C D)
  | others (fds : List Nat)

def managerStep (m : TimerManager C D) : ManagerAction C D → TimerManager C D
  | .call call => applyCall m call
  | .processOnce wait => (nvTimerManagerProcessOnce m wait).1
  | .others fds => { m with others := fds }

theorem Sound.managerStep (m : TimerManager C D) (a : ManagerAction C D) (h : Sound m) :
    Sound (managerStep m a) := by
  cases a with
  | call call => exact h.applyCall m call
  | processOnce wait =>
      cases wait with
      | interrupted => exact h
      | failed => exact h
      | ready events => exact run_invariant Sound.processEvent h events
  | others fds => exact ⟨h.distinct, h.serial_inj, h.serial_lt, h.callback⟩

theorem registered_init (capacity : Nat) (others : List Nat) :
    registered (nvTimerManagerInit capacity others : TimerManager C D).timers = ∅ := by
  ext t
  simp only [nvTimerManagerInit, mem_registered, List.mem_replicate, Set.mem_empty_iff_false,
    iff_false]
  rintro ⟨⟨-, rfl⟩, hfd⟩
  exact Int.lt_irrefl 0 hfd

theorem Sound.init (capacity : Nat) (others : List Nat) :
    Sound (nvTimerManagerInit capacity others : TimerManager C D) := by
  have hempty := registered_init (C := C) (D := D) capacity others
  have hfds : fds (nvTimerManagerInit capacity others : TimerManager C D).timers = [] := by
    refine List.eq_nil_iff_forall_not_mem.mpr fun fd hfd => ?_
    obtain ⟨t, ht, -⟩ := mem_fds_iff.mp hfd
    rw [hempty] at ht
    exact Set.notMem_empty t ht
  refine ⟨hfds ▸ List.nodup_nil, ?_, ?_, ?_⟩
  all_goals
    rw [hempty]
    exact fun t ht => absurd ht (Set.notMem_empty t)

/-- A manager in use. -/
theorem sound_of_run (capacity : Nat) (others : List Nat) (as : List (ManagerAction C D)) :
    Sound (run managerStep (nvTimerManagerInit capacity others) as) :=
  run_invariant Sound.managerStep (Sound.init capacity others) as

end Reachable

end Libnv.TimerTask
