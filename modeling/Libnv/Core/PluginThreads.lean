import Libnv.Core.Plugins

/-!
# Plug-in threads and what they use

A plug-in's thread runs the code behind `handle` and writes its record when it
ends.  `nv_core_loadlib_join` waits for it until the time-out; after that
`nv_core_loadlibs_close_loaded` leaves the handle open, but
`nv_core_loadlibs_unload` frees the record all the same, and a second closing
takes the thread for one that was never started.

Threads end at any time against the calls made while closing, or never.
-/

namespace Libnv.Plugins

section Threads

variable (exit : Nat → Option Nat)

/-- The thread of a plug-in has ended at a time. -/
def ended (id clock : Nat) : Bool :=
  match exit id with
  | some time => time ≤ clock
  | none => false

theorem ended_mono {id clock clock' : Nat} (h : ended exit id clock = true) (hle : clock ≤ clock') :
    ended exit id clock' = true := by
  unfold ended at h ⊢
  cases hexit : exit id with
  | none => simp [hexit] at h
  | some time =>
      simp only [hexit, decide_eq_true_eq] at h ⊢
      omega

/-- `pthread_tryjoin_np` on a thread that runs until it ends. -/
def Polls.ofThreads : Polls :=
  fun id _ clock => if ended exit id clock then .joined else .busy

/-- No record is freed and no handle closed while the thread of the plug-in runs. -/
def ThreadsKept (events : List PluginEvent) : Prop :=
  ∀ id clock, .dlclose id clock ∈ events ∨ .free id clock ∈ events →
    .started id ∈ events → ended exit id clock = true

/-- At the last try of a join, made when its time-out has passed, the thread has ended. -/
def JoinsInTime (events : List PluginEvent) : Prop :=
  ∀ id clock, .lastPoll id clock ∈ events → ended exit id clock = true

theorem JoinsInTime.append {xs ys : List PluginEvent} (h : JoinsInTime exit (xs ++ ys)) :
    JoinsInTime exit xs ∧ JoinsInTime exit ys :=
  ⟨fun id clock hmem => h id clock (List.mem_append_left ys hmem),
    fun id clock hmem => h id clock (List.mem_append_right xs hmem)⟩

end Threads

section Joining

variable {exit : Nat → Option Nat}

theorem joinLoop_inTime {id sleeps : Nat} {tries clock : Nat}
    (h : JoinsInTime exit (joinLoop (Polls.ofThreads exit) id sleeps tries clock).2.2) :
    ∃ clock' events, joinLoop (Polls.ofThreads exit) id sleeps tries clock = (.ok, clock', events) ∧
      clock ≤ clock' ∧ ended exit id clock' = true ∧
      ∀ event ∈ events, ∃ time, event = .lastPoll id time := by
  induction sleeps generalizing tries clock with
  | zero =>
      have hended : ended exit id clock = true := by
        refine h id clock ?_
        unfold joinLoop
        cases Polls.ofThreads exit id tries clock <;> exact List.mem_singleton_self _
      have hpoll : Polls.ofThreads exit id tries clock = .joined := by simp [Polls.ofThreads, hended]
      refine ⟨clock + 1, [.lastPoll id clock], by simp [joinLoop, hpoll], Nat.le_succ clock,
        ended_mono exit hended (Nat.le_succ clock), ?_⟩
      intro event hmem
      exact ⟨clock, List.mem_singleton.mp hmem⟩
  | succ sleeps ih =>
      unfold joinLoop at h ⊢
      cases hended : ended exit id clock with
      | true =>
          have hpoll : Polls.ofThreads exit id tries clock = .joined := by
            simp [Polls.ofThreads, hended]
          simp only [hpoll]
          exact ⟨clock + 1, [], rfl, Nat.le_succ clock, ended_mono exit hended (Nat.le_succ clock),
            by simp⟩
      | false =>
          have hpoll : Polls.ofThreads exit id tries clock = .busy := by simp [Polls.ofThreads, hended]
          simp only [hpoll] at h ⊢
          obtain ⟨clock', events, heq, hle, hrest⟩ := ih h
          exact ⟨clock', events, heq, by omega, hrest⟩

end Joining

section Closing

variable {exit : Nat → Option Nat} (created : Nat → Prop) {clock : Nat} {lib : Loadlib}

/-- The thread of a record, if one was created, can still be joined or has ended. -/
def Joinable (exit : Nat → Option Nat) (lib : Loadlib) (clock : Nat) : Prop :=
  created lib.id → lib.handle = true ∧ lib.threadStarted = true ∨ ended exit lib.id clock = true

/-- What a closing without time-outs leaves behind. -/
structure ClosedInTime (exit : Nat → Option Nat) (libs : List Loadlib) (clock clock' : Nat)
    (events : List PluginEvent) : Prop where
  le : clock ≤ clock'
  ended : ∀ lib ∈ libs, created lib.id → ended exit lib.id clock' = true
  dlclose : ∀ id time, .dlclose id time ∈ events → created id → Plugins.ended exit id time = true
  quiet : ∀ id time, .free id time ∉ events ∧ .started id ∉ events

variable {created} {o : Outcomes}

theorem nvCoreLoadlibJoin_inTime
    (h : JoinsInTime exit (nvCoreLoadlibJoin o (Polls.ofThreads exit) lib clock).2.2.2) :
    ∃ clock' events,
      nvCoreLoadlibJoin o (Polls.ofThreads exit) lib clock =
        (.ok, { lib with threadStarted := false }, clock', events) ∧
      clock ≤ clock' ∧ (lib.threadStarted = true → ended exit lib.id clock' = true) ∧
      ∀ event ∈ events, ∃ time, event = .lastPoll lib.id time := by
  unfold nvCoreLoadlibJoin at h ⊢
  cases hstarted : lib.threadStarted with
  | false => exact ⟨clock, [], by simp [← hstarted], Nat.le_refl clock, by simp, by simp⟩
  | true =>
      simp only [hstarted, Bool.not_true, Bool.false_eq_true, if_false] at h
      obtain ⟨clock', events, heq, hle, hended, hevents⟩ := joinLoop_inTime h
      exact ⟨clock', events, by simp [heq], hle, fun _ => hended, hevents⟩

theorem closeOne_joined (hhandle : lib.handle = true)
    (h : JoinsInTime exit (closeOne o (Polls.ofThreads exit) lib clock).2.2) :
    ∃ clock' before, closeOne o (Polls.ofThreads exit) lib clock =
        ({ lib with threadStarted := false, handle := false }, clock' + 1,
          before ++ [.dlclose lib.id clock']) ∧
      clock ≤ clock' ∧ (lib.threadStarted = true → ended exit lib.id clock' = true) ∧
      ∀ event ∈ before, event = .cleanup lib.id ∨ ∃ time, event = .lastPoll lib.id time := by
  let called : List PluginEvent := if lib.cleanup then [PluginEvent.cleanup lib.id] else []
  have hpolls : JoinsInTime exit
      (nvCoreLoadlibJoin o (Polls.ofThreads exit) lib (clock + called.length)).2.2.2 := by
    intro id time hmem
    refine h id time ?_
    simp only [closeOne, hhandle, Bool.not_true, Bool.false_eq_true, if_false]
    split
    · exact List.mem_append_left _ (List.mem_append_right _ hmem)
    · exact List.mem_append_left _ (List.mem_append_right _ hmem)
    · exact List.mem_append_right _ hmem
  obtain ⟨clock', polls, hjoin, hle, hended, hquiet⟩ := nvCoreLoadlibJoin_inTime hpolls
  refine ⟨clock', called ++ polls, ?_, Nat.le_trans (Nat.le_add_right _ _) hle, hended, ?_⟩
  · simp only [closeOne, hhandle, Bool.not_true, Bool.false_eq_true, if_false]
    simp only [called] at hjoin
    simp only [hjoin]
    rfl
  · intro event hmem
    rcases List.mem_append.mp hmem with hmem | hmem
    · simp only [called] at hmem
      split at hmem
      · exact Or.inl (List.mem_singleton.mp hmem)
      · cases hmem
    · exact Or.inr (hquiet event hmem)

theorem closeOne_inTime (hlib : Joinable created exit lib clock)
    (h : JoinsInTime exit (closeOne o (Polls.ofThreads exit) lib clock).2.2) :
    ClosedInTime created exit [(closeOne o (Polls.ofThreads exit) lib clock).1] clock
      (closeOne o (Polls.ofThreads exit) lib clock).2.1
      (closeOne o (Polls.ofThreads exit) lib clock).2.2 := by
  cases hhandle : lib.handle with
  | false =>
      have hopen : closeOne o (Polls.ofThreads exit) lib clock = (lib, clock, []) := by
        simp [closeOne, hhandle]
      rw [hopen]
      refine ⟨Nat.le_refl clock, ?_, by simp, by simp⟩
      intro lib' hmem hcreated
      obtain rfl := List.mem_singleton.mp hmem
      rcases hlib hcreated with ⟨hopened, -⟩ | hended
      · simp [hhandle] at hopened
      · exact hended
  | true =>
      obtain ⟨clock', before, hclose, hle, hended, hbefore⟩ := closeOne_joined hhandle h
      have hthread : created lib.id → ended exit lib.id clock' = true := by
        intro hcreated
        rcases hlib hcreated with ⟨-, hstarted⟩ | hold
        · exact hended hstarted
        · exact ended_mono exit hold hle
      have hevents : ∀ event ∈ before ++ [.dlclose lib.id clock'], event = .cleanup lib.id ∨
          (∃ time, event = .lastPoll lib.id time) ∨ event = .dlclose lib.id clock' := by
        intro event hmem
        rcases List.mem_append.mp hmem with hmem | hmem
        · exact (hbefore event hmem).imp_right Or.inl
        · exact Or.inr (Or.inr (List.mem_singleton.mp hmem))
      rw [hclose]
      refine ⟨Nat.le_succ_of_le hle, ?_, ?_, ?_⟩
      · intro lib' hmem hcreated
        obtain rfl := List.mem_singleton.mp hmem
        exact ended_mono exit (hthread hcreated) (Nat.le_succ clock')
      · intro id time hmem hcreated
        obtain heq | ⟨_, heq⟩ | heq := hevents _ hmem <;> cases heq
        exact hthread hcreated
      · intro id time
        constructor
        · intro hmem
          obtain heq | ⟨_, heq⟩ | heq := hevents _ hmem <;> cases heq
        · intro hmem
          obtain heq | ⟨_, heq⟩ | heq := hevents _ hmem <;> cases heq

theorem nvCoreLoadlibsCloseLoaded_inTime
    {libs : List Loadlib} (hlibs : ∀ lib ∈ libs, Joinable created exit lib clock)
    (h : JoinsInTime exit (nvCoreLoadlibsCloseLoaded o (Polls.ofThreads exit) libs clock).2.2) :
    ClosedInTime created exit (nvCoreLoadlibsCloseLoaded o (Polls.ofThreads exit) libs clock).1 clock
      (nvCoreLoadlibsCloseLoaded o (Polls.ofThreads exit) libs clock).2.1
      (nvCoreLoadlibsCloseLoaded o (Polls.ofThreads exit) libs clock).2.2 := by
  induction libs with
  | nil => exact ⟨Nat.le_refl clock, by simp [nvCoreLoadlibsCloseLoaded],
      by simp [nvCoreLoadlibsCloseLoaded], by simp [nvCoreLoadlibsCloseLoaded]⟩
  | cons lib rest ih =>
      obtain ⟨hlib, hrest⟩ := List.forall_mem_cons.mp hlibs
      simp only [nvCoreLoadlibsCloseLoaded] at h ⊢
      obtain ⟨hbefore, hown⟩ := JoinsInTime.append exit h
      have hclosed := ih hrest hbefore
      have hlater : Joinable created exit lib
          (nvCoreLoadlibsCloseLoaded o (Polls.ofThreads exit) rest clock).2.1 := by
        intro hcreated
        exact (hlib hcreated).imp id fun hended => ended_mono exit hended hclosed.le
      have hone := closeOne_inTime hlater hown
      refine ⟨Nat.le_trans hclosed.le hone.le, ?_, ?_, ?_⟩
      · intro lib' hmem hcreated
        rcases List.mem_cons.mp hmem with rfl | hmem
        · exact hone.ended _ List.mem_cons_self hcreated
        · exact ended_mono exit (hclosed.ended lib' hmem hcreated) hone.le
      · intro id time hmem hcreated
        rcases List.mem_append.mp hmem with hmem | hmem
        · exact hclosed.dlclose id time hmem hcreated
        · exact hone.dlclose id time hmem hcreated
      · intro id time
        simp only [List.mem_append, not_or]
        exact ⟨⟨(hclosed.quiet id time).1, (hone.quiet id time).1⟩,
          (hclosed.quiet id time).2, (hone.quiet id time).2⟩

end Closing

section Runs

variable {exit : Nat → Option Nat} {created : Nat → Prop} {o : Outcomes}
variable {clock : Nat} {libs : List Loadlib}

/-- The records are freed after everything else. -/
theorem nvCoreLoadlibsFreeList_mem {event : PluginEvent}
    (h : event ∈ nvCoreLoadlibsFreeList libs clock) :
    ∃ lib ∈ libs, ∃ time, clock ≤ time ∧ event = .free lib.id time := by
  induction libs generalizing clock with
  | nil => cases h
  | cons lib rest ih =>
      rcases List.mem_cons.mp h with rfl | h
      · exact ⟨lib, List.mem_cons_self, clock, Nat.le_refl clock, rfl⟩
      · obtain ⟨lib', hmem, time, hle, heq⟩ := ih h
        exact ⟨lib', List.mem_cons_of_mem lib hmem, time, Nat.le_of_succ_le hle, heq⟩

theorem nvCoreLoadlibsUnload_inTime (hlibs : ∀ lib ∈ libs, Joinable created exit lib clock)
    (h : JoinsInTime exit (nvCoreLoadlibsUnload o (Polls.ofThreads exit) libs clock)) :
    (∀ id time, .dlclose id time ∈ nvCoreLoadlibsUnload o (Polls.ofThreads exit) libs clock ∨
        .free id time ∈ nvCoreLoadlibsUnload o (Polls.ofThreads exit) libs clock →
      created id → ended exit id time = true) ∧
    ∀ id, .started id ∉ nvCoreLoadlibsUnload o (Polls.ofThreads exit) libs clock := by
  unfold nvCoreLoadlibsUnload at h ⊢
  have hclosed := nvCoreLoadlibsCloseLoaded_inTime hlibs (JoinsInTime.append exit h).1
  simp only [List.mem_append]
  constructor
  · intro id time hevent hcreated
    rcases hevent with (hmem | hmem) | (hmem | hmem)
    · exact hclosed.dlclose id time hmem hcreated
    · obtain ⟨lib, -, time', -, heq⟩ := nvCoreLoadlibsFreeList_mem hmem
      cases heq
    · exact absurd hmem (hclosed.quiet id time).1
    · obtain ⟨lib, hlib, time', hle, heq⟩ := nvCoreLoadlibsFreeList_mem hmem
      cases heq
      exact ended_mono exit (hclosed.ended lib hlib hcreated) hle
  · intro id hmem
    rcases hmem with hmem | hmem
    · exact (hclosed.quiet id 0).2 hmem
    · obtain ⟨lib, -, time', -, heq⟩ := nvCoreLoadlibsFreeList_mem hmem
      cases heq

theorem threadsKept_of_load (created : Nat → Prop) {loading : List PluginEvent} {n : Nat}
    (hload : nvCoreLoadlibsLoad o (Polls.ofThreads exit) [] ((List.range n).map Loadlib.fresh) =
      (libs, clock, loading))
    (hlibs : ∀ lib ∈ libs, Joinable created exit lib clock)
    (hstarted : ∀ id, .started id ∈ loading → created id)
    (hdlclose : ∀ id time, .dlclose id time ∈ loading → created id → ended exit id time = true)
    (hfree : ∀ id time, .free id time ∉ loading)
    (h : JoinsInTime exit (loadUnload o (Polls.ofThreads exit) n)) :
    ThreadsKept exit (loadUnload o (Polls.ofThreads exit) n) := by
  simp only [loadUnload, hload] at h ⊢
  obtain ⟨hsafe, hnone⟩ := nvCoreLoadlibsUnload_inTime hlibs (JoinsInTime.append exit h).2
  intro id time hevent hmem
  have hcreated : created id := by
    rcases List.mem_append.mp hmem with hmem | hmem
    · exact hstarted id hmem
    · exact absurd hmem (hnone id)
  simp only [List.mem_append] at hevent
  rcases hevent with (hmem | hmem) | (hmem | hmem)
  · exact hdlclose id time hmem hcreated
  · exact hsafe id time (Or.inl hmem) hcreated
  · exact absurd hmem (hfree id time)
  · exact hsafe id time (Or.inr hmem) hcreated

/--
For every list of plug-ins, every time-out and all times at which the threads end:
as long as every thread has ended by the last try of its join, no record is freed
and no handle is closed while the thread of the plug-in runs, whether the load
succeeds or not.
-/
theorem nvCoreLoadlibs_threads_kept
    (o : Outcomes)
    (exit : Nat → Option Nat)
    (n : Nat)
    (h : JoinsInTime exit (loadUnload o (Polls.ofThreads exit) n)) :
    ThreadsKept exit (loadUnload o (Polls.ofThreads exit) n) := by
  rcases loads_all_or_first o n with hall | ⟨id, hn, hbefore, hid⟩
  · have hmem : ∀ i ∈ List.range n, o.loads i = true := fun i hi => hall i (List.mem_range.mp hi)
    refine threadsKept_of_load (fun _ => True)
      (nvCoreLoadlibsLoad_all o (Polls.ofThreads exit) [] hmem) ?_ (fun _ _ => trivial)
      (by simp) (by simp) h
    intro lib hlib _
    obtain ⟨i, -, rfl⟩ := List.mem_map.mp hlib
    exact Or.inl ⟨rfl, rfl⟩
  · obtain ⟨after, hrange⟩ := range_split hn
    have hload := nvCoreLoadlibsLoad_fails o (Polls.ofThreads exit) [] after
      (fun i hi => hbefore i (List.mem_range.mp hi)) hid
    rw [← hrange] at hload
    have hlibs : ∀ lib ∈ (List.range id).map (Loadlib.loaded o) ++
        Loadlib.unfinished o id :: after.map Loadlib.fresh,
        Joinable (fun i => i < id) exit lib 0 := by
      intro lib hlib hcreated
      rcases List.mem_append.mp hlib with hlib | hlib
      · obtain ⟨i, -, rfl⟩ := List.mem_map.mp hlib
        exact Or.inl ⟨rfl, rfl⟩
      · -- The thread of this record was not created.
        rcases List.mem_cons.mp hlib with rfl | hlib
        · exact absurd hcreated (Nat.lt_irrefl id)
        · obtain ⟨i, hi, rfl⟩ := List.mem_map.mp hlib
          have hnodup : (List.range id ++ id :: after).Nodup := hrange ▸ List.nodup_range
          have hdisjoint := (List.nodup_append.mp hnodup).2.2
          exact absurd rfl (hdisjoint i (List.mem_range.mpr hcreated) i (List.mem_cons_of_mem id hi))
    have hclosing := h
    simp only [loadUnload, hload, List.nil_append, loadFailed] at hclosing
    have hclosed := nvCoreLoadlibsCloseLoaded_inTime hlibs
      (JoinsInTime.append exit (JoinsInTime.append exit hclosing).1).2
    refine threadsKept_of_load (fun i => i < id) hload ?_ ?_ ?_ ?_ h
    · intro lib hlib hcreated
      exact Or.inr (hclosed.ended lib hlib hcreated)
    · intro i hmem
      rcases List.mem_append.mp hmem with hmem | hmem
      · simpa using hmem
      · exact absurd hmem (hclosed.quiet i 0).2
    · intro i time hmem hcreated
      rcases List.mem_append.mp hmem with hmem | hmem
      · simp at hmem
      · exact hclosed.dlclose i time hmem hcreated
    · intro i time hmem
      rcases List.mem_append.mp hmem with hmem | hmem
      · simp at hmem
      · exact (hclosed.quiet i time).1 hmem

/-- Two plug-ins; the thread of the one joined first has ended only at the last try. -/
theorem nvCoreLoadlibs_threads_kept_two :
    let o : Outcomes :=
      { dlopen := fun _ => true, dlsymInit := fun _ => true, dlsymCleanup := fun _ => true,
        create := fun _ => true, timeoutMs := 200 }
    let events := loadUnload o (Polls.ofThreads fun _ => some 3) 2
    events = [.started 0, .started 1, .cleanup 1, .lastPoll 1 3, .dlclose 1 4, .cleanup 0,
        .dlclose 0 7, .free 0 8, .free 1 9] ∧
      ThreadsKept (fun _ => some 3) events := by
  intro o events
  have hevents : events = [.started 0, .started 1, .cleanup 1, .lastPoll 1 3, .dlclose 1 4,
      .cleanup 0, .dlclose 0 7, .free 0 8, .free 1 9] := by decide
  refine ⟨hevents, nvCoreLoadlibs_threads_kept o (fun _ => some 3) 2 ?_⟩
  intro id clock hmem
  have hmem' : PluginEvent.lastPoll id clock ∈ events := hmem
  rw [hevents] at hmem'
  obtain ⟨rfl, rfl⟩ : id = 1 ∧ clock = 3 := by simpa using hmem'
  decide

/-- A thread that does not end loses its record when the plug-ins are unloaded. -/
theorem nvCoreLoadlibs_record_freed_while_running :
    let o : Outcomes :=
      { dlopen := fun _ => true, dlsymInit := fun _ => true, dlsymCleanup := fun _ => false,
        create := fun _ => true, timeoutMs := 100 }
    let events := loadUnload o (Polls.ofThreads fun _ => none) 1
    events = [.started 0, .lastPoll 0 1, .free 0 2] ∧ ¬ ThreadsKept (fun _ => none) events := by
  intro o events
  have hevents : events = [.started 0, .lastPoll 0 1, .free 0 2] := by decide
  refine ⟨hevents, fun hkept => ?_⟩
  have hended := hkept 0 2 (Or.inr (by rw [hevents]; decide)) (by rw [hevents]; decide)
  cases hended

end Runs

end Libnv.Plugins
