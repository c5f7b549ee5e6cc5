import Libnv.Bus.Barrier
import Libnv.Lib.WaitFor

/-!
# Waiting in `nv_core_pubsub_unsubscribe`

A thread in `nv_core_pubsub_unsubscribe` waits for every thread that has taken an
entry for the subscription and not released it.  A handler holds an entry while
it runs: when it unsubscribes its own subscription, or when two handlers
unsubscribe each other's, the threads wait in a circle and no step is left but
the test that fails again.  Calls that close no such circle never get stuck.
-/

namespace Libnv.Bus

open Transition WaitFor Relation

universe u

section Waiting

/-- The subscription that the innermost call is removing. -/
def waitsOn : List Frame → Option Nat
  | .unsubscribe id :: _ => some id
  | .waiting id :: _ => some id
  | _ => none

/-- The call is in the wait, and the test of `calls` would fail again. -/
def failedRecheck (ctx : PubsubCtx) : Frame → Bool
  | .waiting id => 0 < callsOf ctx.subs id
  | _ => false

/-- The thread is in a call whose next step is not a failed test of the wait. -/
def canMove (ctx : PubsubCtx) : List Frame → Bool
  | [] => false
  | frame :: _ => !failedRecheck ctx frame

variable {Tid : Type u}

/-- If some call has not returned, then some thread can move. -/
def BusState.Progress (st : BusState Tid) : Prop :=
  (∃ t, st.threads t ≠ []) → ∃ t, canMove st.ctx (st.threads t) = true

instance [Fintype Tid] (st : BusState Tid) : Decidable st.Progress :=
  inferInstanceAs (Decidable ((∃ t, st.threads t ≠ []) → ∃ t, canMove st.ctx (st.threads t) = true))

/-- The first thread removes a subscription of which the second holds an entry. -/
def BusState.WaitsFor (st : BusState Tid) (a b : Tid) : Prop :=
  ∃ id, waitsOn (st.threads a) = some id ∧ id ∈ entriesOf (st.threads b)

/--
No thread that holds an entry of the subscription is the caller, or waits for the
caller, directly or through other threads.
-/
def BusState.ClosesNoCircle (st : BusState Tid) (t : Tid) (id : Nat) : Prop :=
  ∀ holder, id ∈ entriesOf (st.threads holder) → ¬ ReflTransGen st.WaitsFor holder t

/-- The condition on the calls: `nv_core_pubsub_unsubscribe` closes no circle. -/
def unsubscribesSafely (st : BusState Tid) : BusAction Tid → Prop
  | .call t (.unsubscribe id) => st.ClosesNoCircle t id
  | .call _ (.subscribe _) | .call _ (.publish _) | .step _ _ => True

theorem closesNoCircle_of_free {st : BusState Tid} {t : Tid} {id : Nat}
    (h : ∀ holder, id ∈ entriesOf (st.threads holder) →
      holder ≠ t ∧ waitsOn (st.threads holder) = none) : st.ClosesNoCircle t id := by
  intro holder hmem hpath
  obtain ⟨hne, hfree⟩ := h holder hmem
  rcases hpath.cases_head with heq | ⟨next, ⟨id', hwaits, -⟩, -⟩
  · exact hne heq
  · rw [hfree] at hwaits
    cases hwaits

/-- A thread at a failed test holds up the wait of the subscription's entries. -/
theorem waitsOn_of_not_canMove
    {ctx : PubsubCtx} {frames : List Frame} (hcall : frames ≠ []) (h : ¬ canMove ctx frames = true) :
    ∃ id, waitsOn frames = some id ∧ 0 < callsOf ctx.subs id ∧ .waiting id ∈ frames := by
  cases frames with
  | nil => exact absurd rfl hcall
  | cons frame rest =>
      cases frame with
      | waiting id =>
          have hcalls : 0 < callsOf ctx.subs id := by simpa [canMove, failedRecheck] using h
          exact ⟨id, rfl, hcalls, List.mem_cons_self⟩
      | subscribe | publish | deliver | publishIpc | unsubscribe =>
          exact absurd rfl h

end Waiting

/-- Below the innermost call there are only handlers that run. -/
def Nested (frames : List Frame) : Prop :=
  ∀ frame ∈ frames.tail, canCall [frame] = true

theorem waitsOn_eq_none {frames : List Frame} (h : canCall frames = true) : waitsOn frames = none := by
  cases frames with
  | nil => rfl
  | cons frame rest =>
      cases frame with
      | deliver => rfl
      | subscribe | publish | publishIpc | unsubscribe | waiting => simp [canCall] at h

theorem canCall_cons (frame : Frame) (rest : List Frame) :
    canCall (frame :: rest) = canCall [frame] := by
  cases frame with
  | deliver topic entries phase => cases phase <;> rfl
  | subscribe | publish | publishIpc | unsubscribe | waiting => rfl

theorem Nested.call {frames : List Frame} (h : Nested frames) (hcall : canCall frames = true)
    (frame : Frame) : Nested (frame :: frames) := by
  cases frames with
  | nil => simp [Nested]
  | cons top rest => exact List.forall_mem_cons.mpr ⟨canCall_cons top rest ▸ hcall, h⟩

/-- What remains when the innermost call returns. -/
theorem Nested.rest {frame : Frame} {rest : List Frame} (h : Nested (frame :: rest)) :
    Nested rest ∧ waitsOn rest = none := by
  cases rest with
  | nil => exact ⟨h, rfl⟩
  | cons top rest =>
      have hall := List.forall_mem_cons.mp h
      exact ⟨hall.2, waitsOn_eq_none (canCall_cons top rest ▸ hall.1)⟩

section Steps

variable {Tid : Type u} [DecidableEq Tid] {st : BusState Tid} {frame : Frame} {rest : List Frame}

/-- The wait of a thread after its step: none, or the one it was in. -/
structure Eases (old new : List Frame) : Prop where
  nested : Nested new
  waits : waitsOn new = none ∨ waitsOn new = waitsOn old ∧ entriesOf new = entriesOf old

theorem eases_pop (h : Nested (frame :: rest)) : Eases (frame :: rest) rest :=
  ⟨h.rest.1, Or.inl h.rest.2⟩

theorem eases_advance {frame' : Frame} (h : Nested (frame :: rest))
    (hfree : waitsOn [frame'] = none) : Eases (frame :: rest) (frame' :: rest) := by
  refine ⟨h, Or.inl ?_⟩
  cases frame' with
  | unsubscribe | waiting => simp [waitsOn] at hfree
  | subscribe | publish | deliver | publishIpc => rfl

/-- The test of the wait leaves the thread waiting for the same subscription, or returns. -/
theorem testCalls_eases (st : BusState Tid) (t : Tid) {id : Nat}
    (h : Nested (frame :: rest)) (hwaits : waitsOn [frame] = some id)
    (hentries : frame.entries = []) :
    ∃ new, (st.testCalls t id rest).threads = Function.update st.threads t new ∧
      Eases (frame :: rest) new := by
  unfold BusState.testCalls
  split_ifs
  · refine ⟨.waiting id :: rest, rfl, h, Or.inr ⟨?_, ?_⟩⟩
    · cases frame with
      | unsubscribe | waiting => simpa [waitsOn] using hwaits.symm
      | subscribe | publish | deliver | publishIpc => simp [waitsOn] at hwaits
    · rw [entriesOf, entriesOf, List.flatMap_cons, List.flatMap_cons, hentries]
      rfl
  · exact ⟨rest, rfl, eases_pop h⟩

theorem frameStep_eases (st : BusState Tid) (t : Tid) (alloc : Bool) (h : Nested (frame :: rest)) :
    ∃ new, (frameStep st t alloc rest frame).threads = Function.update st.threads t new ∧
      Eases (frame :: rest) new := by
  cases frame with
  | subscribe topic => exact ⟨rest, rfl, eases_pop h⟩
  | publish topic =>
      simp only [frameStep]
      split_ifs
      · exact ⟨_, rfl, eases_advance h rfl⟩
      · exact ⟨_, rfl, eases_advance h rfl⟩
      · exact ⟨rest, rfl, eases_pop h⟩
  | deliver topic entries phase =>
      cases phase with
      | entry => exact ⟨_, rfl, eases_advance h rfl⟩
      | running => exact ⟨_, rfl, eases_advance h rfl⟩
      | exited =>
          cases entries with
          | nil => exact ⟨_, rfl, eases_advance h rfl⟩
          | cons id entries =>
              simp only [frameStep]
              split_ifs
              · exact ⟨_, rfl, eases_advance h rfl⟩
              · exact ⟨_, rfl, eases_advance h rfl⟩
  | publishIpc topic => exact ⟨rest, rfl, eases_pop h⟩
  | unsubscribe id => exact testCalls_eases (st.mapSubs (deactivate id)) t h rfl rfl
  | waiting id => exact testCalls_eases st t h rfl rfl

end Steps

section Graph

variable {Tid : Type u} [DecidableEq Tid] {st st' : BusState Tid} {t : Tid} {new : List Frame}

/-- A step that eases the wait of its thread closes no circle. -/
theorem acyclic_of_eases
    (h : Acyclic st.WaitsFor) (hthreads : st'.threads = Function.update st.threads t new)
    (heases : Eases (st.threads t) new) : Acyclic st'.WaitsFor := by
  rcases heases.waits with hnone | ⟨hwaits, hentries⟩
  · refine h.sink (t := t) ?_ ?_
    · rintro b ⟨id, hid, -⟩
      rw [hthreads, Function.update_self, hnone] at hid
      cases hid
    · rintro a b ⟨id, hid, hmem⟩
      by_cases hb : b = t
      · exact Or.inr hb
      · refine Or.inl ⟨id, ?_, ?_⟩
        · by_cases ha : a = t
          · subst ha
            rw [hthreads, Function.update_self, hnone] at hid
            cases hid
          · rwa [hthreads, Function.update_of_ne ha] at hid
        · rwa [hthreads, Function.update_of_ne hb] at hmem
  · have hsame : ∀ a, waitsOn (st'.threads a) = waitsOn (st.threads a) ∧
        entriesOf (st'.threads a) = entriesOf (st.threads a) := by
      intro a
      by_cases ha : a = t
      · subst ha
        rw [hthreads, Function.update_self]
        exact ⟨hwaits, hentries⟩
      · rw [hthreads, Function.update_of_ne ha]
        exact ⟨rfl, rfl⟩
    refine h.mono ?_
    rintro a b ⟨id, hid, hmem⟩
    exact ⟨id, (hsame a).1 ▸ hid, (hsame b).2 ▸ hmem⟩

theorem acyclic_of_call (h : Acyclic st.WaitsFor) {frame : Frame}
    (hentries : frame.entries = []) (hcall : waitsOn (st.threads t) = none)
    (hsafe : ∀ id, waitsOn [frame] = some id → st.ClosesNoCircle t id) :
    Acyclic (st.goto t (frame :: st.threads t)).WaitsFor := by
  have hholds : ∀ b, entriesOf ((st.goto t (frame :: st.threads t)).threads b) =
      entriesOf (st.threads b) := by
    intro b
    by_cases hb : b = t
    · subst hb
      rw [BusState.goto_threads_self]
      simp only [entriesOf, List.flatMap_cons, hentries, List.nil_append]
    · rw [BusState.goto_threads_other _ hb]
  refine h.source (t := t) ?_
  rintro a b ⟨id, hid, hmem⟩
  rw [hholds] at hmem
  by_cases ha : a = t
  · subst ha
    rw [BusState.goto_threads_self] at hid
    have hframe : waitsOn [frame] = some id := by
      cases frame with
      | unsubscribe | waiting => simpa [waitsOn] using hid
      | subscribe | publish | deliver | publishIpc => simp [waitsOn] at hid
    exact Or.inr ⟨rfl, hsafe id hframe b hmem⟩
  · rw [BusState.goto_threads_other _ ha] at hid
    exact Or.inl ⟨id, hid, hmem⟩

end Graph

section Runs

variable {Tid : Type u} [DecidableEq Tid] [Fintype Tid] {st : BusState Tid}

/-- No thread waits in a circle. -/
structure FlowInv (st : BusState Tid) : Prop where
  bus : BusInv st
  nested : ∀ t, Nested (st.threads t)
  acyclic : Acyclic st.WaitsFor

omit [DecidableEq Tid] in
theorem flowInv_init : FlowInv (busInit Tid) where
  bus := busInv_init
  nested := by
    intro t frame hframe
    simp [busInit] at hframe
  acyclic := by
    intro a hcycle
    obtain ⟨b, ⟨id, hid, -⟩, -⟩ := TransGen.head'_iff.mp hcycle
    cases hid

theorem FlowInv.step
    (st : BusState Tid) (a : BusAction Tid) (h : FlowInv st) (hsafe : unsubscribesSafely st a) :
    FlowInv (busStep st a) := by
  have hbus := BusInv.step st a h.bus
  cases a with
  | call t call =>
      simp only [busStep] at hbus ⊢
      split_ifs at hbus ⊢ with hcall
      · refine ⟨hbus, fun t' => ?_, acyclic_of_call h.acyclic ?_ (waitsOn_eq_none hcall.1) ?_⟩
        · by_cases ht : t' = t
          · subst ht
            rw [BusState.goto_threads_self]
            exact (h.nested t').call hcall.1 _
          · rw [BusState.goto_threads_other _ ht]
            exact h.nested t'
        · cases call <;> rfl
        · intro id hid
          cases call with
          | subscribe | publish => cases hid
          | unsubscribe id' =>
              obtain rfl : id' = id := by simpa [waitsOn, Call.frame] using hid
              exact hsafe
      · exact h
  | step t alloc =>
      simp only [busStep] at hbus ⊢
      cases hthread : st.threads t with
      | nil => exact h
      | cons frame rest =>
          simp only [hthread] at hbus
          obtain ⟨new, hthreads, heases⟩ := frameStep_eases st t alloc (hthread ▸ h.nested t)
          refine ⟨hbus, fun t' => ?_, acyclic_of_eases h.acyclic hthreads (hthread ▸ heases)⟩
          rw [hthreads]
          by_cases ht : t' = t
          · subst ht
            rw [Function.update_self]
            exact heases.nested
          · rw [Function.update_of_ne ht]
            exact h.nested t'

omit [DecidableEq Tid] in
/-- In a state in which nobody can move, every waiting thread waits for another one. -/
theorem FlowInv.progress (h : FlowInv st) : st.Progress := by
  rintro ⟨t, ht⟩
  by_contra hstuck
  have hblocked : ∀ t, ¬ canMove st.ctx (st.threads t) = true := fun t hmove => hstuck ⟨t, hmove⟩
  obtain ⟨b, hb, hfree⟩ := h.acyclic.exists_free (fun t => st.threads t ≠ []) ht
  obtain ⟨id, hwaits, hcalls, hframe⟩ := waitsOn_of_not_canMove hb (hblocked b)
  have hretired : Retired st.ctx id := h.bus.frames b _ hframe
  have hpending : 0 < st.pending id := by
    rw [h.bus.callsOf hretired.1] at hcalls
    omega
  obtain ⟨holder, -, hcount⟩ := Finset.exists_ne_zero_of_sum_ne_zero (Nat.ne_of_gt hpending)
  have hmem : id ∈ entriesOf (st.threads holder) := List.count_pos_iff.mp (Nat.pos_of_ne_zero hcount)
  refine hfree holder ?_ ⟨id, hwaits, hmem⟩
  intro hnil
  simp [hnil, entriesOf] at hmem

attribute [local instance] neZero_two in
/-- Thread 0 unsubscribes while thread 1 runs the handler. -/
def unsubscribeDuringHandler : List (BusAction (Fin 2)) :=
  [.call 0 (.subscribe ⟨[97], by decide⟩), .step 0 true,
    .call 1 (.publish ⟨[97], by decide⟩), .step 1 true, .step 1 true,
    .call 0 (.unsubscribe 1), .step 0 true]

/--
However the threads interleave, and whatever the handlers call: as long as no call
of `nv_core_pubsub_unsubscribe` closes a circle of waiting threads, some thread can
move in every state in which a call has not returned.
-/
theorem nvCorePubsub_no_deadlock
    (as : List (BusAction Tid))
    (hsafe : Along busStep unsubscribesSafely (busInit Tid) as) :
    (run busStep (busInit Tid) as).Progress :=
  (run_invariant_of_along FlowInv.step flowInv_init hsafe).progress

/-- A thread unsubscribes while the handler runs in another one, and waits for it. -/
theorem nvCorePubsub_no_deadlock_two_threads :
    Along busStep unsubscribesSafely (busInit (Fin 2)) unsubscribeDuringHandler ∧
      (run busStep (busInit (Fin 2)) unsubscribeDuringHandler).threads 0 = [.waiting 1] ∧
      (run busStep (busInit (Fin 2)) unsubscribeDuringHandler).Progress := by
  have hsafe : Along busStep unsubscribesSafely (busInit (Fin 2)) unsubscribeDuringHandler := by
    refine ⟨trivial, trivial, trivial, trivial, trivial, ?_, trivial, trivial⟩
    exact closesNoCircle_of_free (by decide +kernel)
  exact ⟨hsafe, by decide +kernel, nvCorePubsub_no_deadlock _ hsafe⟩

/-- A handler that unsubscribes its own subscription waits for itself. -/
theorem nvCorePubsub_unsubscribe_self_stuck :
    let st := run busStep (busInit (Fin 1))
      [.call 0 (.subscribe ⟨[97], by decide⟩), .step 0 true,
        .call 0 (.publish ⟨[97], by decide⟩), .step 0 true, .step 0 true,
        .call 0 (.unsubscribe 1), .step 0 true]
    st.threads 0 = [.waiting 1, .deliver ⟨[97], by decide⟩ [1] .running] ∧ ¬ st.Progress := by
  decide +kernel

end Runs

end Libnv.Bus
