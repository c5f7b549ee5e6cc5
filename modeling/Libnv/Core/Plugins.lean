import Libnv.Lib.Lifecycle

/-!
# Loading and unloading plug-ins

`nv_core_loadlibs_load` and `nv_core_loadlibs_unload` of
`src/core/loadlib/nv_core_loadlib.c`, one after the other as in a run of
`nv_core_run`: `nv_core_shutdown` unloads after a failed load, too.

A failed load closes the plug-ins that were opened, and the unloading closes the
whole list once more.  A join that runs into its time-out keeps the handle, so
that the second closing finds the plug-in open again.

What `dlopen`, `dlsym` and `pthread_create` do is given from outside, and so is
every `pthread_tryjoin_np`.  The clock counts the calls made while closing.
-/

namespace Libnv.Plugins

open Lifecycle

section Functions

/-- The run-time part of `nv_core_loadlib_t`; `id` stands for its address. -/
structure Loadlib where
  id : Nat
  /-- `handle` is not NULL. -/
  handle : Bool
  /-- `init` is not NULL. -/
  init : Bool
  /-- `cleanup` is not NULL. -/
  cleanup : Bool
  threadStarted : Bool
deriving DecidableEq, Repr

/-- The record as `nv_core_loadlibs_append` allocates it. -/
def Loadlib.fresh (id : Nat) : Loadlib where
  id := id
  handle := false
  init := false
  cleanup := false
  threadStarted := false

/-- What `pthread_tryjoin_np` returns: 0, `EBUSY` or another error. -/
inductive TryJoin where
  | joined
  | busy
  | failed
deriving DecidableEq, Repr

/-- `NV_OK`, `NV_BUSY` or `NV_ERROR`. -/
inductive JoinResult where
  | ok
  | busy
  | error
deriving DecidableEq, Repr

/-- Which plug-ins can be opened, have the symbols, and get a thread; and the shutdown time-out. -/
structure Outcomes where
  dlopen : Nat → Bool
  dlsymInit : Nat → Bool
  dlsymCleanup : Nat → Bool
  create : Nat → Bool
  timeoutMs : Int

/-- How often `nv_core_loadlib_join` sleeps for 100 ms before it gives up. -/
def Outcomes.sleeps (o : Outcomes) : Nat :=
  ((if o.timeoutMs ≤ 0 then 3000 else o.timeoutMs).toNat + 99) / 100

/-- The calls that matter, with the clock where the order against the threads matters. -/
inductive PluginEvent where
  | started (id : Nat)
  | cleanup (id : Nat)
  /-- The `pthread_tryjoin_np` made when the time-out has passed. -/
  | lastPoll (id : Nat) (clock : Nat)
  | dlclose (id : Nat) (clock : Nat)
  | free (id : Nat) (clock : Nat)
deriving DecidableEq, Repr

/-- `pthread_tryjoin_np` for a plug-in, by the number of tries before and by the clock. -/
abbrev Polls : Type :=
  Nat → Nat → Nat → TryJoin

/-- The loop of `nv_core_loadlib_join`, with the sleeps left and the tries made. -/
def joinLoop (poll : Polls) (id : Nat) : (sleeps tries clock : Nat) → JoinResult × Nat × List PluginEvent
  | 0, tries, clock =>
      match poll id tries clock with
      | .joined => (.ok, clock + 1, [.lastPoll id clock])
      | .failed => (.error, clock + 1, [.lastPoll id clock])
      | .busy => (.busy, clock + 1, [.lastPoll id clock])
  | sleeps + 1, tries, clock =>
      match poll id tries clock with
      | .joined => (.ok, clock + 1, [])
      | .failed => (.error, clock + 1, [])
      | .busy => joinLoop poll id sleeps (tries + 1) (clock + 1)

variable (o : Outcomes) (poll : Polls)

/-- Every return of the loop clears `thread_started`. -/
def nvCoreLoadlibJoin (lib : Loadlib) (clock : Nat) :
    JoinResult × Loadlib × Nat × List PluginEvent :=
  if !lib.threadStarted then (.ok, lib, clock, [])
  else
    let (result, clock, events) := joinLoop poll lib.id o.sleeps 0 clock
    (result, { lib with threadStarted := false }, clock, events)

/-- One record of `nv_core_loadlibs_close_loaded`. -/
def closeOne (lib : Loadlib) (clock : Nat) : Loadlib × Nat × List PluginEvent :=
  if !lib.handle then (lib, clock, [])
  else
    let called := if lib.cleanup then [PluginEvent.cleanup lib.id] else []
    let (joined, lib, clock, polls) := nvCoreLoadlibJoin o poll lib (clock + called.length)
    match joined with
    | .ok | .error =>
        ({ lib with handle := false }, clock + 1, called ++ polls ++ [.dlclose lib.id clock])
    | .busy => (lib, clock, called ++ polls)

/-- The rest of the list first. -/
def nvCoreLoadlibsCloseLoaded : List Loadlib → Nat → List Loadlib × Nat × List PluginEvent
  | [], clock => ([], clock, [])
  | lib :: rest, clock =>
      let (rest, clock, before) := nvCoreLoadlibsCloseLoaded rest clock
      let (lib, clock, events) := closeOne o poll lib clock
      (lib :: rest, clock, before ++ events)

def nvCoreLoadlibsFreeList : List Loadlib → Nat → List PluginEvent
  | [], _ => []
  | lib :: rest, clock => .free lib.id clock :: nvCoreLoadlibsFreeList rest (clock + 1)

/-- The end of `nv_core_loadlibs_load` when a plug-in cannot be loaded. -/
def loadFailed (libs : List Loadlib) : List Loadlib × Nat × List PluginEvent :=
  nvCoreLoadlibsCloseLoaded o poll libs 0

/-- `nv_core_loadlibs_load`, with the records that are behind it in the list. -/
def nvCoreLoadlibsLoad (done : List Loadlib) : List Loadlib → List Loadlib × Nat × List PluginEvent
  | [] => (done, 0, [])
  | lib :: rest =>
      if !o.dlopen lib.id then loadFailed o poll (done ++ lib :: rest)
      else
        let lib := { lib with handle := true }
        if !o.dlsymInit lib.id then loadFailed o poll (done ++ lib :: rest)
        else
          let lib := { lib with init := true, cleanup := o.dlsymCleanup lib.id }
          if !o.create lib.id then loadFailed o poll (done ++ lib :: rest)
          else
            let (libs, clock, events) :=
              nvCoreLoadlibsLoad (done ++ [{ lib with threadStarted := true }]) rest
            (libs, clock, .started lib.id :: events)

def nvCoreLoadlibsUnload (libs : List Loadlib) (clock : Nat) : List PluginEvent :=
  let (libs, clock, events) := nvCoreLoadlibsCloseLoaded o poll libs clock
  events ++ nvCoreLoadlibsFreeList libs clock

/-- Loading a list of `n` entries, and unloading it. -/
def loadUnload (n : Nat) : List PluginEvent :=
  let (libs, clock, events) := nvCoreLoadlibsLoad o poll [] ((List.range n).map Loadlib.fresh)
  events ++ nvCoreLoadlibsUnload o poll libs clock

end Functions

section Lifecycle

/-- A thread that is started starts a plug-in, and `cleanup` stops it. -/
def PluginEvent.lifecycle? : PluginEvent → Option (Event Nat)
  | .started id => some (.start id)
  | .cleanup id => some (.stop id)
  | .lastPoll _ _ | .dlclose _ _ | .free _ _ => none

/-- The starts and the cleanups of a run. -/
def lifecycle (events : List PluginEvent) : List (Event Nat) :=
  events.filterMap PluginEvent.lifecycle?

theorem lifecycle_append (xs ys : List PluginEvent) :
    lifecycle (xs ++ ys) = lifecycle xs ++ lifecycle ys :=
  List.filterMap_append

variable (o : Outcomes)

/-- The plug-in is opened, has its `init` and gets its thread. -/
def Outcomes.loads (id : Nat) : Bool :=
  o.dlopen id && o.dlsymInit id && o.create id

/-- The symbols of the plug-in have been looked up, and then it gets no thread. -/
def Outcomes.createFails (id : Nat) : Bool :=
  o.dlopen id && o.dlsymInit id && !o.create id

variable (tries : Nat → Nat → TryJoin)

/-- Every try of a join until its time-out finds the thread running. -/
def timesOut (id : Nat) : Prop :=
  ∀ k ≤ o.sleeps, tries id k = .busy

instance (id : Nat) : Decidable (timesOut o tries id) :=
  inferInstanceAs (Decidable (∀ k ≤ o.sleeps, tries id k = .busy))

/--
If a plug-in cannot be loaded, then it is not one with a `cleanup` that lacks only
its thread, and no plug-in before it with a `cleanup` is still running at the
time-out of its join.
-/
def LoadsCleanly (n : Nat) : Prop :=
  ∀ id < n, (∀ i < id, o.loads i = true) → o.loads id = false →
    ¬ (o.createFails id = true ∧ o.dlsymCleanup id = true) ∧
      ∀ i < id, o.dlsymCleanup i = true → ¬ timesOut o tries i

end Lifecycle

section Closing

variable (o : Outcomes) (tries : Nat → Nat → TryJoin)

/-- The tries of a join, as they come out for one plug-in. -/
def Polls.ofTries (tries : Nat → Nat → TryJoin) : Polls :=
  fun id k _ => tries id k

theorem joinLoop_lifecycle (poll : Polls) (id sleeps k clock : Nat) :
    lifecycle (joinLoop poll id sleeps k clock).2.2 = [] := by
  induction sleeps generalizing k clock with
  | zero =>
      unfold joinLoop
      cases poll id k clock <;> rfl
  | succ sleeps ih =>
      unfold joinLoop
      cases poll id k clock with
      | joined => rfl
      | failed => rfl
      | busy => exact ih (k + 1) (clock + 1)

theorem joinLoop_busy_iff (id sleeps k clock : Nat) :
    (joinLoop (Polls.ofTries tries) id sleeps k clock).1 = .busy ↔
      ∀ j ≤ sleeps, tries id (k + j) = .busy := by
  induction sleeps generalizing k clock with
  | zero =>
      unfold joinLoop
      cases h : tries id k <;> simp [Polls.ofTries, h]
  | succ sleeps ih =>
      unfold joinLoop
      cases h : tries id k with
      | joined =>
          simp only [Polls.ofTries, h, reduceCtorEq, false_iff]
          intro hall
          simpa [h] using hall 0 (Nat.zero_le _)
      | failed =>
          simp only [Polls.ofTries, h, reduceCtorEq, false_iff]
          intro hall
          simpa [h] using hall 0 (Nat.zero_le _)
      | busy =>
          have hnext := ih (k + 1) (clock + 1)
          simp only [Polls.ofTries, h] at hnext ⊢
          rw [hnext]
          constructor
          · intro hall j hj
            cases j with
            | zero => exact h
            | succ j =>
                have := hall j (by omega)
                rwa [show k + (j + 1) = k + 1 + j by omega]
          · intro hall j hj
            have := hall (j + 1) (by omega)
            rwa [show k + 1 + j = k + (j + 1) by omega]

/-- A record after it was closed: a join that timed out keeps the handle. -/
def Loadlib.closed (lib : Loadlib) : Loadlib :=
  if lib.handle then
    { lib with threadStarted := false, handle := lib.threadStarted && decide (timesOut o tries lib.id) }
  else lib

/-- The records whose `cleanup` is called. -/
def Loadlib.cleans (lib : Loadlib) : Bool :=
  lib.handle && lib.cleanup

theorem nvCoreLoadlibJoin_spec (lib : Loadlib) (clock : Nat) :
    ∃ result clock' events,
      nvCoreLoadlibJoin o (Polls.ofTries tries) lib clock =
        (result, { lib with threadStarted := false }, clock', events) ∧
      (result = .busy ↔ lib.threadStarted = true ∧ timesOut o tries lib.id) ∧
      lifecycle events = [] := by
  unfold nvCoreLoadlibJoin
  cases hstarted : lib.threadStarted with
  | false => exact ⟨.ok, clock, [], by simp [← hstarted], by simp, rfl⟩
  | true =>
      have hbusy := joinLoop_busy_iff tries lib.id o.sleeps 0 clock
      simp only [Nat.zero_add] at hbusy
      refine ⟨_, _, _, rfl, ?_, joinLoop_lifecycle _ lib.id o.sleeps 0 clock⟩
      simpa [timesOut] using hbusy

theorem closeOne_spec (lib : Loadlib) (clock : Nat) :
    (closeOne o (Polls.ofTries tries) lib clock).1 = lib.closed o tries ∧
      lifecycle (closeOne o (Polls.ofTries tries) lib clock).2.2 =
        if lib.cleans then [.stop lib.id] else [] := by
  unfold closeOne Loadlib.closed Loadlib.cleans
  cases hhandle : lib.handle with
  | false => exact ⟨rfl, rfl⟩
  | true =>
      have hcalled : lifecycle (if lib.cleanup then [PluginEvent.cleanup lib.id] else []) =
          if lib.cleanup then [.stop lib.id] else [] := by
        cases lib.cleanup <;> rfl
      have hclosed : ∀ id clock, lifecycle [PluginEvent.dlclose id clock] = [] := fun _ _ => rfl
      obtain ⟨result, clock', events, hjoin, hbusy, hquiet⟩ := nvCoreLoadlibJoin_spec o tries lib
        (clock + (if lib.cleanup = true then [PluginEvent.cleanup lib.id] else []).length)
      simp only [hjoin, Bool.not_true, Bool.false_eq_true, if_false, if_true, Bool.true_and]
      cases result with
      | busy =>
          obtain ⟨hstarted, hout⟩ := hbusy.mp rfl
          simp [hstarted, hout, lifecycle_append, hquiet, hcalled, hhandle]
      | ok =>
          have hended : (lib.threadStarted && decide (timesOut o tries lib.id)) = false := by
            simpa using hbusy
          simp [hended, lifecycle_append, hquiet, hcalled, hclosed]
      | error =>
          have hended : (lib.threadStarted && decide (timesOut o tries lib.id)) = false := by
            simpa using hbusy
          simp [hended, lifecycle_append, hquiet, hcalled, hclosed]

/-- One closing of the list: which records it leaves open, and which it cleans up, from the end. -/
theorem nvCoreLoadlibsCloseLoaded_spec (libs : List Loadlib) (clock : Nat) :
    (nvCoreLoadlibsCloseLoaded o (Polls.ofTries tries) libs clock).1 =
        libs.map (Loadlib.closed o tries) ∧
      lifecycle (nvCoreLoadlibsCloseLoaded o (Polls.ofTries tries) libs clock).2.2 =
        ((libs.filter Loadlib.cleans).map Loadlib.id).reverse.map .stop := by
  induction libs generalizing clock with
  | nil => exact ⟨rfl, rfl⟩
  | cons lib rest ih =>
      obtain ⟨hrest, hevents⟩ := ih clock
      obtain ⟨hlib, hown⟩ := closeOne_spec o tries lib
        (nvCoreLoadlibsCloseLoaded o (Polls.ofTries tries) rest clock).2.1
      simp only [nvCoreLoadlibsCloseLoaded, lifecycle_append, hlib, hrest, hown, hevents,
        List.map_cons, true_and]
      cases hcleans : lib.cleans with
      | true => simp [List.filter_cons_of_pos, hcleans]
      | false => simp [List.filter_cons_of_neg, hcleans]

theorem nvCoreLoadlibsFreeList_lifecycle (libs : List Loadlib) (clock : Nat) :
    lifecycle (nvCoreLoadlibsFreeList libs clock) = [] := by
  induction libs generalizing clock with
  | nil => rfl
  | cons lib rest ih => exact ih (clock + 1)

theorem nvCoreLoadlibsUnload_lifecycle (libs : List Loadlib) (clock : Nat) :
    lifecycle (nvCoreLoadlibsUnload o (Polls.ofTries tries) libs clock) =
      ((libs.filter Loadlib.cleans).map Loadlib.id).reverse.map .stop := by
  simp only [nvCoreLoadlibsUnload, lifecycle_append, nvCoreLoadlibsFreeList_lifecycle, List.append_nil]
  exact (nvCoreLoadlibsCloseLoaded_spec o tries libs clock).2

end Closing

section Loading

variable (o : Outcomes) (poll : Polls)

/-- A record whose thread was started. -/
def Loadlib.loaded (id : Nat) : Loadlib where
  id := id
  handle := true
  init := true
  cleanup := o.dlsymCleanup id
  threadStarted := true

/-- A record at which the load failed. -/
def Loadlib.unfinished (id : Nat) : Loadlib where
  id := id
  handle := o.dlopen id
  init := o.dlopen id && o.dlsymInit id
  cleanup := o.createFails id && o.dlsymCleanup id
  threadStarted := false

theorem nvCoreLoadlibsLoad_all
    (done : List Loadlib) {ids : List Nat} (hloads : ∀ i ∈ ids, o.loads i = true) :
    nvCoreLoadlibsLoad o poll done (ids.map Loadlib.fresh) =
      (done ++ ids.map (Loadlib.loaded o), 0, ids.map .started) := by
  induction ids generalizing done with
  | nil => simp [nvCoreLoadlibsLoad]
  | cons id ids ih =>
      obtain ⟨hid, hids⟩ := List.forall_mem_cons.mp hloads
      obtain ⟨⟨hopen, hinit⟩, hcreate⟩ : (o.dlopen id = true ∧ o.dlsymInit id = true) ∧
          o.create id = true := by simpa [Outcomes.loads] using hid
      simp only [List.map_cons, nvCoreLoadlibsLoad, Loadlib.fresh, hopen, hinit, hcreate,
        Bool.not_true, Bool.false_eq_true, if_false]
      rw [ih _ hids]
      simp [Loadlib.loaded]

theorem nvCoreLoadlibsLoad_fails
    (done : List Loadlib) {before : List Nat} {id : Nat} (after : List Nat)
    (hbefore : ∀ i ∈ before, o.loads i = true) (hid : o.loads id = false) :
    nvCoreLoadlibsLoad o poll done ((before ++ id :: after).map Loadlib.fresh) =
      let (libs, clock, events) := loadFailed o poll
        (done ++ before.map (Loadlib.loaded o) ++ Loadlib.unfinished o id :: after.map Loadlib.fresh)
      (libs, clock, before.map .started ++ events) := by
  induction before generalizing done with
  | nil =>
      simp only [List.nil_append, List.map_cons, List.map_nil, List.append_nil, nvCoreLoadlibsLoad,
        Loadlib.fresh, Loadlib.unfinished, Outcomes.createFails]
      cases hopen : o.dlopen id with
      | false => simp
      | true =>
          cases hinit : o.dlsymInit id with
          | false => simp
          | true =>
              have hcreate : o.create id = false := by simpa [Outcomes.loads, hopen, hinit] using hid
              simp [hcreate]
  | cons i before ih =>
      obtain ⟨hi, hrest⟩ := List.forall_mem_cons.mp hbefore
      obtain ⟨⟨hopen, hinit⟩, hcreate⟩ : (o.dlopen i = true ∧ o.dlsymInit i = true) ∧
          o.create i = true := by simpa [Outcomes.loads] using hi
      have hnext := ih (done ++ [Loadlib.loaded o i]) hrest
      simp only [List.cons_append, List.map_cons, nvCoreLoadlibsLoad, Loadlib.fresh, hopen, hinit,
        hcreate, Bool.not_true, Bool.false_eq_true, if_false]
      simp only [Loadlib.loaded] at hnext ⊢
      rw [hnext]
      simp

theorem loads_all_or_first (n : Nat) :
    (∀ i < n, o.loads i = true) ∨
      ∃ id < n, (∀ i < id, o.loads i = true) ∧ o.loads id = false := by
  induction n with
  | zero => exact Or.inl fun i hi => absurd hi (Nat.not_lt_zero i)
  | succ n ih =>
      rcases ih with hall | ⟨id, hn, hbefore, hid⟩
      · cases hn : o.loads n with
        | false => exact Or.inr ⟨n, Nat.lt_succ_self n, hall, hn⟩
        | true =>
            refine Or.inl fun i hi => ?_
            rcases Nat.lt_succ_iff_lt_or_eq.mp hi with hlt | rfl
            · exact hall i hlt
            · exact hn
      · exact Or.inr ⟨id, Nat.lt_succ_of_lt hn, hbefore, hid⟩

theorem range_split {n id : Nat} (hid : id < n) :
    ∃ after, List.range n = List.range id ++ id :: after := by
  obtain ⟨m, rfl⟩ := Nat.exists_eq_add_of_lt hid
  refine ⟨(List.range m).map fun i => id + 1 + i, ?_⟩
  rw [show id + m + 1 = id + 1 + m by omega, List.range_add, List.range_succ, List.append_assoc]
  rfl

end Loading

section Pairing

variable (o : Outcomes) (tries : Nat → Nat → TryJoin)

theorem started_lifecycle (ids : List Nat) : lifecycle (ids.map .started) = ids.map .start := by
  simp [lifecycle, List.filterMap_map, Function.comp_def, PluginEvent.lifecycle?]

/-- After a complete load there is one closing, of plug-ins that all run. -/
theorem loadUnload_lifecycle_all {n : Nat} (hloads : ∀ i < n, o.loads i = true) :
    lifecycle (loadUnload o (Polls.ofTries tries) n) =
      (List.range n).map .start ++ ((List.range n).filter o.dlsymCleanup).reverse.map .stop := by
  have hcleans : ((List.range n).map (Loadlib.loaded o)).filter Loadlib.cleans =
      ((List.range n).filter o.dlsymCleanup).map (Loadlib.loaded o) := by
    rw [List.filter_map]
    rfl
  have hmem : ∀ i ∈ List.range n, o.loads i = true := fun i hi => hloads i (List.mem_range.mp hi)
  have hload := nvCoreLoadlibsLoad_all o (Polls.ofTries tries) [] hmem
  simp only [loadUnload, hload, List.nil_append, lifecycle_append, started_lifecycle,
    nvCoreLoadlibsUnload_lifecycle, hcleans, List.map_map]
  simp [Function.comp_def, Loadlib.loaded]

/-- The cleanups of the closing in a failed load. -/
def firstClosing (before : List Nat) (id : Nat) : List Nat :=
  (if o.createFails id && o.dlsymCleanup id then [id] else []) ++ (before.filter o.dlsymCleanup).reverse

/-- The cleanups of the closing after it. -/
def secondClosing (before : List Nat) : List Nat :=
  (before.filter fun i => o.dlsymCleanup i && decide (timesOut o tries i)).reverse

theorem failed_cleans (before : List Nat) (id : Nat) (after : List Nat) :
    let libs := before.map (Loadlib.loaded o) ++ Loadlib.unfinished o id :: after.map Loadlib.fresh
    ((libs.filter Loadlib.cleans).map Loadlib.id).reverse = firstClosing o before id ∧
      (((libs.map (Loadlib.closed o tries)).filter Loadlib.cleans).map Loadlib.id).reverse =
        secondClosing o tries before := by
  have hloaded : Loadlib.cleans ∘ Loadlib.loaded o = o.dlsymCleanup := rfl
  have hagain : Loadlib.cleans ∘ Loadlib.closed o tries ∘ Loadlib.loaded o =
      fun i => o.dlsymCleanup i && decide (timesOut o tries i) := by
    funext i
    cases hcleanup : o.dlsymCleanup i <;>
      simp [Loadlib.cleans, Loadlib.closed, Loadlib.loaded, hcleanup]
  have hfresh : Loadlib.cleans ∘ Loadlib.fresh = fun _ => false := rfl
  have hfresh' : Loadlib.cleans ∘ Loadlib.closed o tries ∘ Loadlib.fresh = fun _ => false := by
    funext i
    simp [Loadlib.cleans, Loadlib.closed, Loadlib.fresh]
  have hopen : (Loadlib.unfinished o id).cleans = (o.createFails id && o.dlsymCleanup id) := by
    simp only [Loadlib.cleans, Loadlib.unfinished, Outcomes.createFails]
    cases o.dlopen id <;> rfl
  have hopen' : ((Loadlib.unfinished o id).closed o tries).cleans = false := by
    cases hdl : o.dlopen id <;>
      simp [Loadlib.cleans, Loadlib.closed, Loadlib.unfinished, hdl]
  have hid : Loadlib.id ∘ Loadlib.loaded o = fun i => i := rfl
  have hid' : Loadlib.id ∘ Loadlib.closed o tries ∘ Loadlib.loaded o = fun i => i := by
    funext i
    simp [Loadlib.closed, Loadlib.loaded]
  constructor
  · simp only [List.filter_append, List.filter_map, hloaded, List.filter_cons, hopen, hfresh,
      List.filter_false, List.map_append, List.map_map, hid, List.reverse_append, firstClosing]
    cases o.createFails id && o.dlsymCleanup id <;> simp [Loadlib.unfinished]
  · simp only [List.map_append, List.map_cons, List.map_map, List.filter_append, List.filter_map,
      List.filter_cons, hagain, hfresh', hopen', hid', secondClosing, List.filter_false]
    simp

theorem loadUnload_lifecycle_fails
    {n id : Nat} (hn : id < n) (hbefore : ∀ i < id, o.loads i = true) (hid : o.loads id = false) :
    lifecycle (loadUnload o (Polls.ofTries tries) n) =
      (List.range id).map .start ++
        (firstClosing o (List.range id) id ++ secondClosing o tries (List.range id)).map .stop := by
  obtain ⟨after, hrange⟩ := range_split hn
  obtain ⟨hfirst, hsecond⟩ := failed_cleans o tries (List.range id) id after
  obtain ⟨hlibs, hevents⟩ := nvCoreLoadlibsCloseLoaded_spec o tries
    ((List.range id).map (Loadlib.loaded o) ++ Loadlib.unfinished o id :: after.map Loadlib.fresh) 0
  have hload := nvCoreLoadlibsLoad_fails o (Polls.ofTries tries) [] after
    (fun i hi => hbefore i (List.mem_range.mp hi)) hid
  simp only [loadUnload, hrange, hload, List.nil_append, loadFailed, lifecycle_append,
    started_lifecycle, nvCoreLoadlibsUnload_lifecycle, hlibs, hevents, hfirst, hsecond,
    List.append_assoc]
  rw [List.map_append]

/-- A failed load pairs exactly when nothing is cleaned up twice or without a thread. -/
theorem closings_paired_iff
    {before : List Nat} {id : Nat} (hbefore : before.Nodup) (hid : id ∉ before) :
    ((firstClosing o before id ++ secondClosing o tries before).Nodup ∧
        (firstClosing o before id ++ secondClosing o tries before).Sublist before.reverse) ↔
      ¬ (o.createFails id = true ∧ o.dlsymCleanup id = true) ∧
        ∀ i ∈ before, o.dlsymCleanup i = true → ¬ timesOut o tries i := by
  constructor
  · rintro ⟨honce, hsub⟩
    refine ⟨fun hfails => ?_, fun i hi hcleanup hout => ?_⟩
    · have hmem : id ∈ firstClosing o before id ++ secondClosing o tries before := by
        simp [firstClosing, hfails]
      exact hid (List.mem_reverse.mp (hsub.subset hmem))
    · have hfirst : i ∈ firstClosing o before id := by
        simp [firstClosing, hi, hcleanup]
      have hsecond : i ∈ secondClosing o tries before := by
        simp [secondClosing, hi, hcleanup, hout]
      exact (List.nodup_append.mp honce).2.2 i hfirst i hsecond rfl
  · rintro ⟨hfails, hjoined⟩
    have hfirst : firstClosing o before id = (before.filter o.dlsymCleanup).reverse := by
      have hnone : (o.createFails id && o.dlsymCleanup id) = false := by simpa using hfails
      simp [firstClosing, hnone]
    have hsecond : secondClosing o tries before = [] := by
      simpa [secondClosing] using hjoined
    rw [hfirst, hsecond, List.append_nil]
    exact ⟨List.nodup_reverse.mpr (hbefore.filter _), List.reverse_sublist.mpr List.filter_sublist⟩

/--
For every list of plug-ins and every outcome of `dlopen`, `dlsym`,
`pthread_create` and the joins: over a load and the unloading after it the
cleanups pair with the threads that were started exactly when a load that fails
does not fail for want of a thread at a plug-in with a `cleanup`, and no earlier
plug-in with a `cleanup` runs into the time-out of its join.
-/
theorem nvCoreLoadlibs_cleanup_paired_iff (n : Nat) :
    Paired (lifecycle (loadUnload o (Polls.ofTries tries) n)) ↔ LoadsCleanly o tries n := by
  rcases loads_all_or_first o n with hall | ⟨id, hn, hbefore, hid⟩
  · rw [loadUnload_lifecycle_all o tries hall, paired_phases_iff]
    constructor
    · intro _ id hn _ hid
      rw [hall id hn] at hid
      cases hid
    · intro _
      exact ⟨List.nodup_reverse.mpr (List.nodup_range.filter _),
        List.reverse_sublist.mpr List.filter_sublist⟩
  · rw [loadUnload_lifecycle_fails o tries hn hbefore hid, paired_phases_iff,
      closings_paired_iff o tries List.nodup_range (by simp)]
    simp only [List.mem_range]
    constructor
    · intro hclean id' _ hbefore' hid'
      -- There is only one first plug-in that cannot be loaded.
      obtain rfl : id' = id := by
        rcases Nat.lt_trichotomy id' id with hlt | heq | hgt
        · rw [hbefore id' hlt] at hid'
          cases hid'
        · exact heq
        · rw [hbefore' id hgt] at hid
          cases hid
      exact hclean
    · intro hclean
      exact hclean id hn hbefore hid

/-- The second plug-in has a `cleanup`, but no thread could be created for it. -/
theorem nvCoreLoadlibs_cleanup_without_thread :
    let o : Outcomes :=
      { dlopen := fun _ => true, dlsymInit := fun _ => true, dlsymCleanup := fun id => id = 1,
        create := fun id => id = 0, timeoutMs := 100 }
    lifecycle (loadUnload o (Polls.ofTries fun _ _ => .joined) 2) = [.start 0, .stop 1] ∧
      ¬ Paired (lifecycle (loadUnload o (Polls.ofTries fun _ _ => .joined) 2)) := by
  intro o
  have htrace : lifecycle (loadUnload o (Polls.ofTries fun _ _ => .joined) 2) =
      [.start 0, .stop 1] := by decide
  refine ⟨htrace, fun hpaired => ?_⟩
  have hstarted := hpaired.only [.start 0] 1 [] htrace
  simp at hstarted

end Pairing

end Libnv.Plugins
