import Libnv.Log.RingDrop
import Libnv.Log.Thread

/-!
# The life of the log ring

`nv_log_ring_init` and `nv_log_ring_shutdown` allocate and free the array of slots
and set and clear `g_async_ready`.  Each of their statements is a step here; one
thread makes the calls, one after the other, while producers and the log thread
take their own steps.  Of the log thread only its pops and its exit after `stop`
matter, and they may happen at any time.

Arrays of slots are numbered in the order of their allocation.  A producer reads
`r->slots` when it computes the address of its slot and keeps that address until
it has published.

`nv_log_ring_shutdown` frees the array before it clears the flag, so the flag is
wrong from that statement on, and a producer that is already past its test of the
flag goes on with the freed array.
-/

namespace Libnv.Log

open Transition

universe u

/-- Program points of the thread that calls `nv_log_ring_init` and `nv_log_ring_shutdown`. -/
inductive ControlPc where
  | idle
  | initCheck (queueSize : Nat)
  | initClear (queueSize : Nat)
  | initCapacity (queueSize : Nat)
  | initMask
  | initSlots
  | initSeq (i : Nat)
  | initEnqueue
  | initDequeue
  | initStop
  | initMutex
  | initCond
  | initCreate
  | failMutex
  | failCond
  | failFree
  | failNull
  | initStarted
  | initReady
  | closeCheck
  | closeStop
  | closeLock
  | closeBroadcast
  | closeUnlock
  | closeJoin
  | closeMutex
  | closeCond
  | closeFree
  | closeClear
  | closeReady
deriving DecidableEq

/-- The ring, its array of slots, and the threads. -/
structure LifeState (Tid : Type u) where
  core : RingState Tid
  /-- `r->slots`: `NULL`, or the number of the array it points to. -/
  slots : Option Nat
  /-- The arrays that are allocated, with their numbers of slots. -/
  live : List (Nat × Nat)
  next : Nat
  threadStarted : Bool
  stop : Bool
  /-- The log thread has been created and has not exited. -/
  running : Bool
  control : ControlPc
  /-- The array that a producer's local `slot` points into. -/
  slotPtr : Tid → Option Nat

section Steps

variable {Tid : Type u} [DecidableEq Tid]

/-- `memset(r, 0, sizeof(*r))`. -/
def LifeState.clear (s : LifeState Tid) : LifeState Tid :=
  { s with
    core := { s.core with ring := clearedRing }
    slots := none
    threadStarted := false
    stop := false }

def LifeState.freeSlots (s : LifeState Tid) : LifeState Tid :=
  { s with live := s.live.filter fun a => some a.1 ≠ s.slots }

def LifeState.setRing (s : LifeState Tid) (ring : LogRing) : LifeState Tid :=
  { s with core := { s.core with ring := ring } }

def LifeState.goto (s : LifeState Tid) (pc : ControlPc) : LifeState Tid :=
  { s with control := pc }

/--
The next statement of `nv_log_ring_init` or `nv_log_ring_shutdown`; `ok` is the
outcome of `calloc` or `pthread_create`.
-/
def controlStep (s : LifeState Tid) (ok : Bool) : LifeState Tid :=
  let r := s.core.ring
  match s.control with
  | .idle => s
  | .initCheck queueSize =>
      if s.core.asyncReady then s.goto .idle else s.goto (.initClear queueSize)
  | .initClear queueSize => s.clear.goto (.initCapacity queueSize)
  | .initCapacity queueSize =>
      (s.setRing { r with capacity := nvLogRoundPow2 queueSize }).goto .initMask
  | .initMask => (s.setRing { r with mask := r.capacity - 1 }).goto .initSlots
  | .initSlots =>
      if ok then
        { s with
          slots := some s.next
          live := (s.next, r.capacity) :: s.live
          next := s.next + 1
          control := .initSeq 0 }
      else s.goto .idle
  | .initSeq i =>
      if i < r.capacity then
        (s.setRing { r with
          slots := fun j => if j = i then { r.slots j with seq := i } else r.slots j }).goto
          (.initSeq (i + 1))
      else s.goto .initEnqueue
  | .initEnqueue => (s.setRing { r with enqueuePos := 0 }).goto .initDequeue
  | .initDequeue => (s.setRing { r with dequeuePos := 0 }).goto .initStop
  | .initStop => { s with stop := false, control := .initMutex }
  | .initMutex => s.goto .initCond
  | .initCond => s.goto .initCreate
  | .initCreate =>
      if ok then { s with running := true, control := .initStarted } else s.goto .failMutex
  | .failMutex => s.goto .failCond
  | .failCond => s.goto .failFree
  | .failFree => s.freeSlots.goto .failNull
  | .failNull => { s with slots := none, control := .idle }
  | .initStarted => { s with threadStarted := true, control := .initReady }
  | .initReady => { s with core := { s.core with asyncReady := true }, control := .idle }
  | .closeCheck => if s.threadStarted then s.goto .closeStop else s.goto .idle
  | .closeStop => { s with stop := true, control := .closeLock }
  | .closeLock => s.goto .closeBroadcast
  | .closeBroadcast => s.goto .closeUnlock
  | .closeUnlock => s.goto .closeJoin
  | .closeJoin => if s.running then s else s.goto .closeMutex
  | .closeMutex => s.goto .closeCond
  | .closeCond => s.goto .closeFree
  | .closeFree => s.freeSlots.goto .closeClear
  | .closeClear => s.clear.goto .closeReady
  | .closeReady => { s with core := { s.core with asyncReady := false }, control := .idle }

/-- The array whose slots the next step of a producer reads or writes, as it points to it. -/
def accessed (s : LifeState Tid) (t : Tid) : Option (Option Nat) :=
  match s.core.push t with
  | .releaseSlot _ _ => some s.slots
  | .spin _ _ 0 => some s.slots
  | .spin _ _ (_ + 1) => some (s.slotPtr t)
  | .recheck _ _ => some (s.slotPtr t)
  | .writeText _ _ _ => some (s.slotPtr t)
  | .writeNul _ _ => some (s.slotPtr t)
  | .writeLevel _ _ => some (s.slotPtr t)
  | .publish _ _ => some (s.slotPtr t)
  | _ => none

/-- A step of a producer; the address of the slot is computed before its first use. -/
def lifePush (s : LifeState Tid) (t : Tid) (spurious : Bool) : LifeState Tid :=
  { s with
    core := pushStep s.core t spurious
    slotPtr := fun u =>
      match s.core.push t with
      | .spin _ _ 0 => if u = t then s.slots else s.slotPtr u
      | _ => s.slotPtr u }

/-- Who moves next. -/
inductive LifeAction (Tid : Type u) where
  | init (queueSize : Nat)
  | close
  | control (ok : Bool)
  | call (t : Tid) (line : Option CString) (level : LogLevel)
  | push (t : Tid) (spurious : Bool)
  | pop
  | exit

def lifeStep (s : LifeState Tid) : LifeAction Tid → LifeState Tid
  | .init queueSize => if s.control = .idle then s.goto (.initCheck queueSize) else s
  | .close => if s.control = .idle then s.goto .closeCheck else s
  | .control ok => controlStep s ok
  | .call t line level => { s with core := pushCall s.core t line level }
  | .push t spurious => lifePush s t spurious
  | .pop => if s.running then { s with core := popStep s.core } else s
  | .exit => if s.stop then { s with running := false } else s

/-- The static initial values. -/
def lifeInit (policy : LogOverflow) : LifeState Tid where
  core := { ringInit 0 policy with ring := clearedRing, asyncReady := false }
  slots := none
  live := []
  next := 0
  threadStarted := false
  stop := false
  running := false
  control := .idle
  slotPtr := fun _ => none

/-- `r->slots` is an allocated array of `r->capacity` slots, a power of two. -/
def LifeState.Allocated (s : LifeState Tid) : Prop :=
  ∃ id, s.slots = some id ∧ (id, s.core.ring.capacity) ∈ s.live ∧
    ∃ k, s.core.ring.capacity = 2 ^ k

def PublishedExists (s : LifeState Tid) : Prop :=
  s.core.asyncReady = true → s.Allocated

/-- A producer's next step works on an allocated array. -/
def AccessOk (s : LifeState Tid) : LifeAction Tid → Prop
  | .push t _ => ∀ ptr, accessed s t = some ptr → ∃ id n, ptr = some id ∧ (id, n) ∈ s.live
  | _ => True

/-- What is expected of a step. -/
def LifeSound (s : LifeState Tid) (a : LifeAction Tid) : Prop :=
  AccessOk s a ∧ PublishedExists (lifeStep s a)

/-- The step is not the `free` of `nv_log_ring_shutdown`. -/
def KeepsSlots (s : LifeState Tid) : LifeAction Tid → Prop
  | .control _ => s.control ≠ .closeFree
  | _ => True

end Steps

section Invariant

variable {Tid : Type u} [DecidableEq Tid]

/-- The producer has not seen the flag set, or is done. -/
def PushPc.outside : PushPc → Bool
  | .idle => true
  | .entry _ _ => true
  | .drop => true
  | .ret _ _ => true
  | _ => false

/-- The producer has computed the address of its slot. -/
def PushPc.holdsSlot : PushPc → Bool
  | .spin _ _ (_ + 1) => true
  | .recheck _ _ => true
  | .writeText _ _ _ => true
  | .writeNul _ _ => true
  | .writeLevel _ _ => true
  | .publish _ _ => true
  | _ => false

/-- The capacity is a power of two. -/
def LifeState.Pow2 (s : LifeState Tid) : Prop := ∃ k, s.core.ring.capacity = 2 ^ k

/-- What holds at each statement, as long as nothing was freed by a shutdown. -/
def ControlOk (s : LifeState Tid) : ControlPc → Prop
  | .idle => s.core.asyncReady = false → s.threadStarted = false
  | .initCheck _ => s.core.asyncReady = false → s.threadStarted = false
  | .closeCheck => s.core.asyncReady = false → s.threadStarted = false
  | .initClear _ => s.core.asyncReady = false
  | .initCapacity _ => s.core.asyncReady = false ∧ s.threadStarted = false
  | .initMask => s.core.asyncReady = false ∧ s.threadStarted = false ∧ s.Pow2
  | .initSlots => s.core.asyncReady = false ∧ s.threadStarted = false ∧ s.Pow2
  | .failMutex => s.core.asyncReady = false ∧ s.threadStarted = false
  | .failCond => s.core.asyncReady = false ∧ s.threadStarted = false
  | .failFree => s.core.asyncReady = false ∧ s.threadStarted = false
  | .failNull => s.core.asyncReady = false ∧ s.threadStarted = false
  | .initStarted => s.core.asyncReady = false ∧ s.Allocated
  | .initReady => s.core.asyncReady = false ∧ s.Allocated
  | .closeStop => s.core.asyncReady = true
  | .closeLock => s.core.asyncReady = true
  | .closeBroadcast => s.core.asyncReady = true
  | .closeUnlock => s.core.asyncReady = true
  | .closeJoin => s.core.asyncReady = true
  | .closeMutex => s.core.asyncReady = true
  | .closeCond => s.core.asyncReady = true
  | .closeFree => s.core.asyncReady = true
  | .closeClear => False
  | .closeReady => False
  | _ => s.core.asyncReady = false ∧ s.threadStarted = false ∧ s.Allocated

/-- The invariant of runs in which no shutdown frees the slots. -/
structure LifeInv (s : LifeState Tid) : Prop where
  published : PublishedExists s
  control : ControlOk s s.control
  outside : s.core.asyncReady = false → ∀ t, (s.core.push t).outside = true
  holders : s.core.asyncReady = true → ∀ t, (s.core.push t).holdsSlot = true →
    s.slotPtr t = s.slots

variable {s s' : LifeState Tid}

omit [DecidableEq Tid] in
/-- A statement of `nv_log_ring_init` before the flag is set. -/
theorem LifeInv.building (hi : LifeInv s) (hready : s'.core.asyncReady = false)
    (hbefore : s.core.asyncReady = false) (hpush : s'.core.push = s.core.push)
    (hcontrol : ControlOk s' s'.control) : LifeInv s' := by
  refine ⟨?_, hcontrol, ?_, ?_⟩
  · intro h
    rw [hready] at h
    cases h
  · intro _ t
    rw [hpush]
    exact hi.outside hbefore t
  · intro h
    rw [hready] at h
    cases h

omit [DecidableEq Tid] in
/-- A statement that leaves the ring, the array and the producers alone. -/
theorem LifeInv.goto (hi : LifeInv s) (hcore : s'.core = s.core) (hslots : s'.slots = s.slots)
    (hlive : s'.live = s.live) (hptr : s'.slotPtr = s.slotPtr)
    (hcontrol : ControlOk s' s'.control) : LifeInv s' := by
  obtain ⟨hpublished, -, houtside, hholders⟩ := hi
  refine ⟨?_, hcontrol, ?_, ?_⟩
  · unfold PublishedExists LifeState.Allocated
    rw [hcore, hslots, hlive]
    exact hpublished
  · rw [hcore]
    exact houtside
  · rw [hcore, hslots, hptr]
    exact hholders

theorem nvLogRoundPow2_pow (n : Nat) : ∃ k, nvLogRoundPow2 n = 2 ^ k := by
  obtain ⟨k, hcap, -⟩ := nvLogRingInit_sized n
  exact ⟨k, hcap⟩

omit [DecidableEq Tid] in
/-- Every statement but the `free` of a shutdown keeps the invariant. -/
theorem LifeInv.controlStep (hi : LifeInv s) (ok : Bool) (hkeep : s.control ≠ .closeFree) :
    LifeInv (controlStep s ok) := by
  have hcontrol := hi.control
  cases hpc : s.control with (rw [hpc] at hcontrol; simp only [Log.controlStep, hpc])
  | idle => exact hi
  | initCheck queueSize =>
      split
      · exact hi.goto rfl rfl rfl rfl hcontrol
      · rename_i hready
        exact hi.goto rfl rfl rfl rfl (Bool.eq_false_iff.mpr hready)
  | initClear queueSize => exact hi.building hcontrol hcontrol rfl ⟨hcontrol, rfl⟩
  | initCapacity queueSize =>
      exact hi.building hcontrol.1 hcontrol.1 rfl
        ⟨hcontrol.1, hcontrol.2, nvLogRoundPow2_pow queueSize⟩
  | initMask | initEnqueue | initDequeue | initStop | initMutex | initCond | failMutex
  | failCond | failFree | initStarted => exact hi.building hcontrol.1 hcontrol.1 rfl hcontrol
  | initSlots =>
      obtain ⟨hready, hstarted, hpow⟩ := hcontrol
      split
      · exact hi.building hready hready rfl
          ⟨hready, hstarted, s.next, rfl, List.mem_cons_self, hpow⟩
      · exact hi.building hready hready rfl fun _ => hstarted
  | initSeq i =>
      split
      · exact hi.building hcontrol.1 hcontrol.1 rfl hcontrol
      · exact hi.building hcontrol.1 hcontrol.1 rfl hcontrol
  | initCreate =>
      obtain ⟨hready, hstarted, halloc⟩ := hcontrol
      split
      · exact hi.building hready hready rfl ⟨hready, halloc⟩
      · exact hi.building hready hready rfl ⟨hready, hstarted⟩
  | failNull => exact hi.building hcontrol.1 hcontrol.1 rfl fun _ => hcontrol.2
  | initReady =>
      obtain ⟨hready, halloc⟩ := hcontrol
      refine ⟨fun _ => halloc, fun h => absurd h (by simp), fun h => absurd h (by simp), ?_⟩
      -- no producer has seen the flag yet, so none holds a slot
      intro _ t hholds
      have hout := hi.outside hready t
      revert hholds hout
      cases s.core.push t <;> simp [PushPc.outside, PushPc.holdsSlot]
  | closeCheck =>
      split
      · rename_i hstarted
        have hready : s.core.asyncReady = true := by
          by_contra hne
          rw [hcontrol (Bool.eq_false_iff.mpr hne)] at hstarted
          cases hstarted
        exact hi.goto rfl rfl rfl rfl hready
      · exact hi.goto rfl rfl rfl rfl hcontrol
  | closeStop | closeLock | closeBroadcast | closeUnlock | closeMutex | closeCond =>
      exact hi.goto rfl rfl rfl rfl hcontrol
  | closeJoin =>
      split
      · exact hi
      · exact hi.goto rfl rfl rfl rfl hcontrol
  | closeFree => exact absurd hpc hkeep
  | closeClear | closeReady => exact hcontrol.elim

/-- A producer that has not seen the flag set does not get past its test. -/
theorem pushStep_outside {s : RingState Tid} {t : Tid} (hready : s.asyncReady = false)
    (hout : (s.push t).outside = true) (spurious : Bool) :
    ((pushStep s t spurious).push t).outside = true := by
  cases hpc : s.push t with
  | idle => simp [pushStep, hpc, PushPc.outside]
  | entry line level =>
      cases line <;> simp [pushStep, hpc, hready, RingState.goto, PushPc.outside]
  | drop => simp [pushStep, hpc, RingState.goto, PushPc.outside]
  | ret rc pos => simp [pushStep, hpc, RingState.goto, PushPc.outside]
  | _ =>
      rw [hpc] at hout
      cases hout

theorem pushStep_holdsSlot {s : RingState Tid} {t : Tid} {spurious : Bool}
    (hholds : ((pushStep s t spurious).push t).holdsSlot = true) :
    (s.push t).holdsSlot = true ∨ ∃ m pos, s.push t = .spin m pos 0 := by
  cases hpc : s.push t with
  | spin m pos spins =>
      cases spins with
      | zero => exact Or.inr ⟨m, pos, rfl⟩
      | succ spins => exact Or.inl rfl
  | recheck m pos => exact Or.inl rfl
  | writeText m pos i => exact Or.inl rfl
  | writeNul m pos => exact Or.inl rfl
  | writeLevel m pos => exact Or.inl rfl
  | publish m pos => exact Or.inl rfl
  | _ =>
      exfalso
      revert hholds
      simp only [pushStep, hpc]
      repeat' split
      all_goals simp [RingState.goto, PushPc.holdsSlot]

omit [DecidableEq Tid] in
/-- A step of a producer or of the log thread, which leaves flag, capacity and array alone. -/
theorem LifeInv.core_step (hi : LifeInv s) (hready : s'.core.asyncReady = s.core.asyncReady)
    (hcapacity : s'.core.ring.capacity = s.core.ring.capacity)
    (hslots : s'.slots = s.slots) (hlive : s'.live = s.live)
    (hstarted : s'.threadStarted = s.threadStarted) (hcontrol : s'.control = s.control)
    (houtside : s.core.asyncReady = false → ∀ t, (s'.core.push t).outside = true)
    (hholders : s.core.asyncReady = true → ∀ t, (s'.core.push t).holdsSlot = true →
      s'.slotPtr t = s.slots) : LifeInv s' := by
  have halloc : s'.Allocated ↔ s.Allocated := by
    unfold LifeState.Allocated
    rw [hcapacity, hslots, hlive]
  have hpow : s'.Pow2 ↔ s.Pow2 := by
    unfold LifeState.Pow2
    rw [hcapacity]
  refine ⟨?_, ?_, ?_, ?_⟩
  · intro h
    exact halloc.mpr (hi.published (hready.symm.trans h))
  · have hok := hi.control
    rw [hcontrol]
    cases hpc : s.control <;> rw [hpc] at hok <;>
      simp only [ControlOk, halloc, hpow, hready, hstarted] at hok ⊢ <;> exact hok
  · rw [hready]
    exact houtside
  · rw [hready, hslots]
    exact hholders

theorem LifeInv.lifePush (hi : LifeInv s) (t : Tid) (spurious : Bool) :
    LifeInv (lifePush s t spurious) := by
  obtain ⟨hothers, hready, hcapacity⟩ := pushStep_others s.core t spurious
  refine hi.core_step hready hcapacity rfl rfl rfl rfl ?_ ?_
  · intro hbefore u
    by_cases hut : u = t
    · subst hut
      exact pushStep_outside hbefore (hi.outside hbefore u) spurious
    · exact (congrArg PushPc.outside (hothers u hut)).trans (hi.outside hbefore u)
  · intro hbefore u hholds
    by_cases hut : u = t
    · subst hut
      rcases pushStep_holdsSlot hholds with hold | ⟨m, pos, hpc⟩
      · have hptr := hi.holders hbefore u hold
        simp only [Log.lifePush]
        split
        · simp
        · exact hptr
      · simp [Log.lifePush, hpc]
    · have hold := hi.holders hbefore u
        ((congrArg PushPc.holdsSlot (hothers u hut)).symm.trans hholds)
      simp only [Log.lifePush]
      split
      · rw [if_neg hut]
        exact hold
      · exact hold

theorem LifeInv.call (hi : LifeInv s) (t : Tid) (line : Option CString) (level : LogLevel) :
    LifeInv (lifeStep s (.call t line level)) := by
  simp only [lifeStep, pushCall]
  cases hpc : s.core.push t with
  | idle =>
      refine hi.core_step rfl rfl rfl rfl rfl rfl ?_ ?_
      · intro hbefore
        exact forall_goto (P := fun _ q => q.outside = true) rfl
          fun u _ => hi.outside hbefore u
      · intro hbefore
        exact forall_goto (P := fun u q => q.holdsSlot = true → s.slotPtr u = s.slots)
          (fun h => by cases h) fun u _ => hi.holders hbefore u
  | _ => exact hi

theorem LifeInv.pop (hi : LifeInv s) : LifeInv (lifeStep s .pop) := by
  obtain ⟨hpush, hready, -, -, hcapacity⟩ := popStep_frame s.core
  simp only [lifeStep]
  split
  · refine hi.core_step hready hcapacity rfl rfl rfl rfl ?_ ?_
    · rw [hpush]
      exact hi.outside
    · rw [hpush]
      exact hi.holders
  · exact hi

theorem LifeInv.step (hi : LifeInv s) (a : LifeAction Tid) (hkeep : KeepsSlots s a) :
    LifeInv (lifeStep s a) := by
  have hcontrol := hi.control
  cases a with
  | init queueSize =>
      simp only [lifeStep]
      split
      · rename_i hidle
        rw [hidle] at hcontrol
        exact hi.goto rfl rfl rfl rfl hcontrol
      · exact hi
  | close =>
      simp only [lifeStep]
      split
      · rename_i hidle
        rw [hidle] at hcontrol
        exact hi.goto rfl rfl rfl rfl hcontrol
      · exact hi
  | control ok => exact hi.controlStep ok hkeep
  | call t line level => exact hi.call t line level
  | push t spurious => exact hi.lifePush t spurious
  | pop => exact hi.pop
  | exit =>
      simp only [lifeStep]
      split
      · exact hi.core_step rfl rfl rfl rfl rfl rfl hi.outside hi.holders
      · exact hi

omit [DecidableEq Tid] in
/-- An access is made by a producer past its test, through `r->slots` or its own pointer. -/
theorem accessed_eq_some {t : Tid} {ptr : Option Nat} (h : accessed s t = some ptr) :
    (s.core.push t).outside = false ∧
      (ptr = s.slots ∨ (s.core.push t).holdsSlot = true ∧ ptr = s.slotPtr t) := by
  unfold accessed at h
  cases hpc : s.core.push t with
  | spin m pos spins =>
      rw [hpc] at h
      cases spins with
      | zero => exact ⟨rfl, Or.inl (Option.some.inj h).symm⟩
      | succ spins => exact ⟨rfl, Or.inr ⟨rfl, (Option.some.inj h).symm⟩⟩
  | releaseSlot m head =>
      rw [hpc] at h
      exact ⟨rfl, Or.inl (Option.some.inj h).symm⟩
  | recheck m pos | writeText m pos i | writeNul m pos | writeLevel m pos | publish m pos =>
      rw [hpc] at h
      exact ⟨rfl, Or.inr ⟨rfl, (Option.some.inj h).symm⟩⟩
  | _ =>
      rw [hpc] at h
      cases h

omit [DecidableEq Tid] in
/-- In states of the invariant a producer works on the allocated array. -/
theorem LifeInv.accessOk (hi : LifeInv s) (a : LifeAction Tid) : AccessOk s a := by
  cases a with
  | push t spurious =>
      intro ptr hptr
      obtain ⟨hinside, hpointer⟩ := accessed_eq_some hptr
      have hready : s.core.asyncReady = true := by
        by_contra hne
        have hout := hi.outside (Bool.eq_false_iff.mpr hne) t
        rw [hinside] at hout
        cases hout
      obtain ⟨id, hslots, hlive, -⟩ := hi.published hready
      rcases hpointer with rfl | ⟨hholds, rfl⟩
      · exact ⟨id, _, hslots, hlive⟩
      · exact ⟨id, _, (hi.holders hready t hholds).trans hslots, hlive⟩
  | _ => trivial

/-- From states of the invariant, a step is sound exactly if it is not the `free`. -/
theorem LifeInv.sound_iff (hi : LifeInv s) (a : LifeAction Tid) :
    LifeSound s a ↔ KeepsSlots s a := by
  constructor
  · rintro ⟨-, hpublished⟩
    cases a with
    | control ok =>
        intro hpc
        have hready := hi.control
        rw [hpc] at hready
        simp only [lifeStep, Log.controlStep, hpc] at hpublished
        obtain ⟨id, hslots, hlive, -⟩ := hpublished hready
        -- the array that `r->slots` points to is the one that was freed
        have hne := (List.mem_filter.mp hlive).2
        simp only [decide_eq_true_eq] at hne
        exact hne hslots.symm
    | _ => trivial
  · intro hkeep
    exact ⟨hi.accessOk a, (hi.step a hkeep).published⟩

end Invariant

section Runs

variable {Tid : Type u} [DecidableEq Tid]

omit [DecidableEq Tid] in
theorem lifeInit_inv (policy : LogOverflow) : LifeInv (lifeInit policy : LifeState Tid) := by
  refine ⟨?_, fun _ => rfl, fun _ _ => rfl, ?_⟩
  · intro h
    cases h
  · intro h
    cases h

/--
For every policy, any producers, every sequence of `nv_log_ring_init` and
`nv_log_ring_shutdown` calls and every interleaving: a published ring exists after
each step and each step of a producer works on an allocated array, exactly in the
runs in which no shutdown reaches its `free`.
-/
theorem nvLogRing_published_iff (policy : LogOverflow) (as : List (LifeAction Tid)) :
    Transition.Along lifeStep LifeSound (lifeInit policy) as ↔
      Transition.Along lifeStep KeepsSlots (lifeInit policy) as :=
  along_iff_along_of_inv (lifeInit_inv policy)
    (fun _ a hi hkeep => hi.step a hkeep) (fun _ a hi => hi.sound_iff a) as

/-- The ring is set up, a producer claims a position, and the ring is shut down. -/
def closeUnderProducer : List (LifeAction Unit) :=
  LifeAction.init 64 :: List.replicate 80 (.control true) ++
    LifeAction.call () (some lineA) .info :: List.replicate 4 (.push () false) ++
      LifeAction.close :: List.replicate 5 (.control true) ++
        LifeAction.exit :: List.replicate 4 (.control true)

/-- After the `free` the flag is still set, and the producer's next step is on the freed array. -/
theorem shutdown_frees_before_flag :
    (Transition.run lifeStep (lifeInit .drop) closeUnderProducer).core.asyncReady = true ∧
      (Transition.run lifeStep (lifeInit .drop) closeUnderProducer).slots = some 0 ∧
      (Transition.run lifeStep (lifeInit .drop) closeUnderProducer).live = [] ∧
      accessed (Transition.run lifeStep (lifeInit .drop) closeUnderProducer) () =
        some (some 0) ∧
      ¬ Transition.Along lifeStep LifeSound (lifeInit .drop)
        (closeUnderProducer ++ [.push () false]) := by
  refine ⟨by decide +kernel, by decide +kernel, by decide +kernel, by decide +kernel, ?_⟩
  intro h
  obtain ⟨⟨haccess, -⟩, -⟩ := ((along_append _ _ _).mp h).2
  obtain ⟨id, n, -, hlive⟩ := haccess (some 0) (by decide +kernel)
  have hempty : (run lifeStep (lifeInit .drop) closeUnderProducer).live = [] := by
    decide +kernel
  rw [hempty] at hlive
  cases hlive

end Runs

end Libnv.Log
