import Mathlib.Data.List.Nodup
import Libnv.Bus.Threads
import Libnv.Lib.Tally
import Libnv.Lib.Transition

/-!
# Unsubscribing is a barrier

`calls` of a subscription counts the entries for it that publishers have taken
and not released.  When `nv_core_pubsub_unsubscribe` returns, the subscription is
inactive and has no entries left, and it can get none any more.
-/

namespace Libnv.Bus

open Transition

universe u

section Invariant

/-- The subscription exists. -/
def Known (ctx : PubsubCtx) (id : Nat) : Prop :=
  ∃ sub ∈ ctx.subs, sub.id = id

/-- The subscription exists and is not active. -/
def Retired (ctx : PubsubCtx) (id : Nat) : Prop :=
  Known ctx id ∧ ∀ sub ∈ ctx.subs, sub.id = id → sub.active = false

/-- What is known of the subscriptions that a call holds. -/
def FrameOk (ctx : PubsubCtx) : Frame → Prop
  | .deliver _ entries _ => ∀ id ∈ entries, Known ctx id
  | .unsubscribe id => Known ctx id
  | .waiting id => Retired ctx id
  | .subscribe _ | .publish _ | .publishIpc _ => True

variable {Tid : Type u} [Fintype Tid]

/-- The invariant of the subscriptions and the calls in progress. -/
structure BusInv (st : BusState Tid) : Prop where
  fresh : ∀ sub ∈ st.ctx.subs, sub.id < st.ctx.nextId
  unique : (st.ctx.subs.map Sub.id).Nodup
  calls : ∀ sub ∈ st.ctx.subs, sub.calls = st.pending sub.id
  frames : ∀ t, ∀ frame ∈ st.threads t, FrameOk st.ctx frame
  returned : ∀ id ∈ st.returned, Retired st.ctx id ∧ st.pending id = 0

theorem busInv_init : BusInv (busInit Tid) where
  fresh := by simp [busInit, emptyBroker]
  unique := by simp [busInit, emptyBroker]
  calls := by simp [busInit, emptyBroker]
  frames := by simp [busInit]
  returned := by simp [busInit]

end Invariant

section Contexts

variable {ctx ctx' : PubsubCtx}

/-- Subscriptions neither disappear nor become active again. -/
structure Keeps (ctx ctx' : PubsubCtx) : Prop where
  known : ∀ id, Known ctx id → Known ctx' id
  retired : ∀ id, Retired ctx id → Retired ctx' id

theorem Keeps.frameOk (h : Keeps ctx ctx') {frame : Frame} (hf : FrameOk ctx frame) :
    FrameOk ctx' frame := by
  cases frame with
  | deliver topic entries phase => exact fun id hid => h.known id (hf id hid)
  | unsubscribe id => exact h.known id hf
  | waiting id => exact h.retired id hf
  | subscribe | publish | publishIpc => trivial

/-- A change of subscriptions that neither renames nor activates one. -/
structure Harmless (f : Sub → Sub) : Prop where
  id : ∀ sub, (f sub).id = sub.id
  active : ∀ sub, (f sub).active = true → sub.active = true

theorem countCall_harmless (topic : CString) : Harmless (countCall topic) where
  id := by intro sub; unfold countCall; split <;> rfl
  active := by intro sub; unfold countCall; split <;> exact fun h => h

theorem releaseCall_harmless (id : Nat) : Harmless (releaseCall id) where
  id := by intro sub; unfold releaseCall; split <;> rfl
  active := by intro sub; unfold releaseCall; split <;> exact fun h => h

theorem deactivate_harmless (id : Nat) : Harmless (deactivate id) where
  id := by intro sub; unfold deactivate; split <;> rfl
  active := by intro sub; unfold deactivate; split <;> simp

theorem keeps_map {f : Sub → Sub} (hf : Harmless f) :
    Keeps ctx { ctx with subs := ctx.subs.map f } := by
  have hknown : ∀ id, Known ctx id → Known { ctx with subs := ctx.subs.map f } id := by
    rintro id ⟨sub, hsub, rfl⟩
    exact ⟨f sub, List.mem_map_of_mem hsub, hf.id sub⟩
  refine ⟨hknown, fun id hret => ⟨hknown id hret.1, fun sub' hsub' hid' => ?_⟩⟩
  obtain ⟨sub, hsub, rfl⟩ := List.mem_map.mp hsub'
  have hoff := hret.2 sub hsub ((hf.id sub).symm.trans hid')
  exact Bool.eq_false_iff.mpr fun hon => by simp [hf.active sub hon] at hoff

end Contexts

section Threads

variable {Tid : Type u} [DecidableEq Tid] [Fintype Tid] {st : BusState Tid}

theorem pending_goto (st : BusState Tid) (t : Tid) (frames : List Frame) (id : Nat) :
    (st.goto t frames).pending id + (entriesOf (st.threads t)).count id =
      st.pending id + (entriesOf frames).count id :=
  Tally.sum_update_add (fun frames => (entriesOf frames).count id) st.threads t frames

variable (h : BusInv st)
include h

/-- Changing subscriptions and the stack of one thread together. -/
theorem BusInv.update {f : Sub → Sub} {t : Tid} {frames : List Frame}
    (hf : Harmless f) (hframes : ∀ frame ∈ frames, FrameOk (st.mapSubs f).ctx frame)
    (hcalls : ∀ sub ∈ st.ctx.subs,
      (f sub).calls + (entriesOf (st.threads t)).count sub.id =
        sub.calls + (entriesOf frames).count sub.id)
    (hreturned : ∀ id ∈ st.returned,
      (entriesOf frames).count id ≤ (entriesOf (st.threads t)).count id) :
    BusInv ((st.mapSubs f).goto t frames) where
  fresh := by
    intro sub' hsub'
    obtain ⟨sub, hsub, rfl⟩ := List.mem_map.mp hsub'
    rw [hf.id]
    exact h.fresh sub hsub
  unique := by
    have hmap : (st.ctx.subs.map f).map Sub.id = st.ctx.subs.map Sub.id := by
      simp [Function.comp_def, hf.id]
    exact hmap ▸ h.unique
  calls := by
    intro sub' hsub'
    obtain ⟨sub, hsub, rfl⟩ := List.mem_map.mp hsub'
    have hpending := pending_goto (st.mapSubs f) t frames sub.id
    have hsame : (st.mapSubs f).pending sub.id = st.pending sub.id := rfl
    have hold := h.calls sub hsub
    have hnew := hcalls sub hsub
    have hthreads : (st.mapSubs f).threads t = st.threads t := rfl
    rw [hf.id]
    rw [hthreads] at hpending
    omega
  frames := by
    intro t' frame hframe
    by_cases ht : t' = t
    · subst ht
      rw [BusState.goto_threads_self] at hframe
      exact hframes frame hframe
    · rw [BusState.goto_threads_other _ ht] at hframe
      have hold : frame ∈ st.threads t' := hframe
      exact (keeps_map hf).frameOk (h.frames t' frame hold)
  returned := by
    intro id hret
    obtain ⟨hretired, hzero⟩ := h.returned id hret
    refine ⟨(keeps_map hf).retired id hretired, ?_⟩
    have hpending : ((st.mapSubs f).goto t frames).pending id +
        (entriesOf (st.threads t)).count id = st.pending id + (entriesOf frames).count id :=
      pending_goto (st.mapSubs f) t frames id
    have := hreturned id hret
    omega

/-- A step that takes and releases no entry. -/
theorem BusInv.goto {t : Tid} {frames : List Frame}
    (hframes : ∀ frame ∈ frames, FrameOk st.ctx frame)
    (hentries : entriesOf frames = entriesOf (st.threads t)) : BusInv (st.goto t frames) := by
  have hid : st.mapSubs id = st := by simp [BusState.mapSubs]
  have hupdate : BusInv ((st.mapSubs id).goto t frames) := by
    refine h.update ⟨fun _ => rfl, fun _ => id⟩ ?_ ?_ ?_
    · rw [hid]
      exact hframes
    · intro sub _
      rw [hentries]
      rfl
    · intro sub _
      rw [hentries]
  rwa [hid] at hupdate

omit [DecidableEq Tid] in
theorem BusInv.rest {t : Tid} {frame : Frame} {rest : List Frame}
    (hthread : st.threads t = frame :: rest) :
    FrameOk st.ctx frame ∧ ∀ frame' ∈ rest, FrameOk st.ctx frame' :=
  List.forall_mem_cons.mp (hthread ▸ h.frames t)

/-- The innermost call goes on with the same entries. -/
theorem BusInv.advance {t : Tid} {frame frame' : Frame} {rest : List Frame}
    (hthread : st.threads t = frame :: rest) (hframe : FrameOk st.ctx frame')
    (hentries : frame'.entries = frame.entries) : BusInv (st.goto t (frame' :: rest)) := by
  refine h.goto (List.forall_mem_cons.mpr ⟨hframe, (h.rest hthread).2⟩) ?_
  rw [hthread]
  simp only [entriesOf, List.flatMap_cons, hentries]

/-- The innermost call returns, without entries. -/
theorem BusInv.pop {t : Tid} {frame : Frame} {rest : List Frame}
    (hthread : st.threads t = frame :: rest) (hentries : frame.entries = []) :
    BusInv (st.goto t rest) := by
  refine h.goto (h.rest hthread).2 ?_
  rw [hthread]
  simp only [entriesOf, List.flatMap_cons, hentries, List.nil_append]

end Threads

section Subscribe

variable {Tid : Type u} [Fintype Tid] {st : BusState Tid} (h : BusInv st)
include h

theorem BusInv.entry_known
    {t : Tid} {id : Nat} (hid : id ∈ entriesOf (st.threads t)) : Known st.ctx id := by
  obtain ⟨frame, hframe, hid⟩ := List.mem_flatMap.mp hid
  have hok := h.frames t frame hframe
  cases frame with
  | deliver topic entries phase => exact hok id hid
  | subscribe | publish | publishIpc | unsubscribe | waiting => simp [Frame.entries] at hid

theorem Known.lt_nextId {id : Nat} (hid : Known st.ctx id) : id < st.ctx.nextId := by
  obtain ⟨sub, hsub, rfl⟩ := hid
  exact h.fresh sub hsub

/-- No publisher holds an entry for a subscription that does not exist yet. -/
theorem BusInv.pending_nextId : st.pending st.ctx.nextId = 0 := by
  refine Finset.sum_eq_zero fun t _ => List.count_eq_zero.mpr fun hid => ?_
  exact Nat.lt_irrefl _ ((h.entry_known hid).lt_nextId h)

theorem keeps_addSub (topic : CString) : Keeps st.ctx (st.addSub topic).ctx := by
  have hknown : ∀ id, Known st.ctx id → Known (st.addSub topic).ctx id := by
    rintro id ⟨sub, hsub, hid⟩
    exact ⟨sub, List.mem_cons_of_mem _ hsub, hid⟩
  refine ⟨hknown, fun id hret => ⟨hknown id hret.1, fun sub hsub hid => ?_⟩⟩
  rcases List.mem_cons.mp hsub with rfl | hsub
  · exact absurd hid (Nat.ne_of_gt (hret.1.lt_nextId h))
  · exact hret.2 sub hsub hid

theorem BusInv.addSub (topic : CString) : BusInv (st.addSub topic) where
  fresh := by
    intro sub hsub
    rcases List.mem_cons.mp hsub with rfl | hsub
    · exact Nat.lt_succ_self _
    · exact Nat.lt_succ_of_lt (h.fresh sub hsub)
  unique := by
    refine List.nodup_cons.mpr ⟨fun hmem => ?_, h.unique⟩
    obtain ⟨sub, hsub, hid⟩ := List.mem_map.mp hmem
    exact Nat.ne_of_lt (h.fresh sub hsub) hid
  calls := by
    intro sub hsub
    rcases List.mem_cons.mp hsub with rfl | hsub
    · exact (congrArg Nat.cast h.pending_nextId).symm
    · exact h.calls sub hsub
  frames := fun t frame hframe => (keeps_addSub h topic).frameOk (h.frames t frame hframe)
  returned := fun id hret =>
    ⟨(keeps_addSub h topic).retired id (h.returned id hret).1, (h.returned id hret).2⟩

end Subscribe

section Publish

variable {Tid : Type u} [DecidableEq Tid] [Fintype Tid] {st : BusState Tid}

theorem mem_snapshot {subs : List Sub} {topic : CString} {sub : Sub} :
    sub ∈ snapshot subs topic ↔ sub ∈ subs ∧ sub.active = true ∧ sub.topic = topic := by
  simp [snapshot]

theorem count_snapshot
    {subs : List Sub} (hunique : (subs.map Sub.id).Nodup) {sub : Sub} (hsub : sub ∈ subs)
    (topic : CString) :
    ((snapshot subs topic).map Sub.id).count sub.id =
      if sub.active = true ∧ sub.topic = topic then 1 else 0 := by
  have hnodup : ((snapshot subs topic).map Sub.id).Nodup :=
    hunique.sublist ((List.filter_sublist).map _)
  have hmem : sub.id ∈ (snapshot subs topic).map Sub.id ↔
      sub.active = true ∧ sub.topic = topic := by
    constructor
    · intro h
      obtain ⟨sub', hsub', hid⟩ := List.mem_map.mp h
      obtain ⟨hin, hmatch⟩ := mem_snapshot.mp hsub'
      obtain rfl := List.inj_on_of_nodup_map hunique hin hsub hid
      exact hmatch
    · intro h
      exact List.mem_map_of_mem (mem_snapshot.mpr ⟨hsub, h⟩)
  rw [hnodup.count, if_congr hmem rfl rfl]

theorem countCall_calls (topic : CString) (sub : Sub) :
    (countCall topic sub).calls =
      sub.calls + if sub.active = true ∧ sub.topic = topic then 1 else 0 := by
  unfold countCall
  split <;> simp

/-- The snapshot takes an entry for every subscription that it counts. -/
theorem BusInv.takeSnapshot (h : BusInv st) {t : Tid} {topic : CString} {rest : List Frame}
    (hthread : st.threads t = .publish topic :: rest) :
    BusInv ((st.mapSubs (countCall topic)).goto t
      (.deliver topic ((snapshot st.ctx.subs topic).map Sub.id) .entry :: rest)) := by
  have hkeeps : Keeps st.ctx (st.mapSubs (countCall topic)).ctx :=
    keeps_map (countCall_harmless topic)
  refine h.update (countCall_harmless topic) (List.forall_mem_cons.mpr ⟨?_, ?_⟩) ?_ ?_
  · intro id hmem
    obtain ⟨sub, hsub, rfl⟩ := List.mem_map.mp hmem
    exact hkeeps.known sub.id ⟨sub, (mem_snapshot.mp hsub).1, rfl⟩
  · exact fun frame hframe => hkeeps.frameOk ((h.rest hthread).2 frame hframe)
  · intro sub hsub
    rw [hthread, countCall_calls]
    simp only [entriesOf, List.flatMap_cons, Frame.entries, List.count_append, List.nil_append,
      count_snapshot h.unique hsub]
    split <;> omega
  · intro id hret
    have hoff := (h.returned id hret).1.2
    have hzero : ((snapshot st.ctx.subs topic).map Sub.id).count id = 0 := by
      refine List.count_eq_zero.mpr fun hmem => ?_
      obtain ⟨sub, hsub, hid'⟩ := List.mem_map.mp hmem
      obtain ⟨hin, hon, -⟩ := mem_snapshot.mp hsub
      simp [hoff sub hin hid'] at hon
    rw [hthread]
    simp only [entriesOf, List.flatMap_cons, Frame.entries, List.count_append, List.nil_append,
      hzero, Nat.zero_add, le_refl]

theorem BusInv.release (h : BusInv st) {t : Tid} {topic : CString} {id : Nat} {entries : List Nat}
    {rest : List Frame} (hthread : st.threads t = .deliver topic (id :: entries) .exited :: rest)
    {frame : Frame} (hframe : FrameOk st.ctx frame) (hentries : frame.entries = entries) :
    BusInv ((st.mapSubs (releaseCall id)).goto t (frame :: rest)) := by
  have hkeeps : Keeps st.ctx (st.mapSubs (releaseCall id)).ctx :=
    keeps_map (releaseCall_harmless id)
  have hframes := List.forall_mem_cons.mpr ⟨hframe, (h.rest hthread).2⟩
  have hold : ∀ id', (entriesOf (st.threads t)).count id' =
      (entriesOf (frame :: rest)).count id' + if id = id' then 1 else 0 := by
    intro id'
    rw [hthread]
    simp only [entriesOf, List.flatMap_cons, hentries]
    simp only [Frame.entries, List.cons_append, List.count_cons, beq_iff_eq]
  refine h.update (releaseCall_harmless id) (fun f hf => hkeeps.frameOk (hframes f hf)) ?_ ?_
  · intro sub _
    rw [hold, releaseCall]
    by_cases hid : sub.id = id
    · simp only [hid, if_true]
      omega
    · simp only [hid, if_false, Ne.symm hid]
      omega
  · intro id' _
    rw [hold]
    omega

end Publish

section Unsubscribe

variable {Tid : Type u} [Fintype Tid] {st : BusState Tid}

theorem BusInv.callsOf (h : BusInv st) {id : Nat} (hknown : Known st.ctx id) :
    callsOf st.ctx.subs id = st.pending id := by
  obtain ⟨sub, hsub, hid⟩ := hknown
  have hsome : (st.ctx.subs.find? fun sub => sub.id = id).isSome :=
    List.find?_isSome.mpr ⟨sub, hsub, by simpa using hid⟩
  obtain ⟨found, hfound⟩ := Option.isSome_iff_exists.mp hsome
  have hfid : found.id = id := by simpa using List.find?_some hfound
  rw [Bus.callsOf, hfound, ← hfid]
  exact h.calls found (List.mem_of_find?_eq_some hfound)

variable [DecidableEq Tid]

theorem BusInv.testCalls (h : BusInv st) {t : Tid} {frame : Frame} {rest : List Frame} {id : Nat}
    (hthread : st.threads t = frame :: rest) (hentries : frame.entries = [])
    (hret : Retired st.ctx id) : BusInv (st.testCalls t id rest) := by
  unfold BusState.testCalls
  split_ifs with hcalls
  · exact h.advance hthread hret hentries.symm
  · have hzero : st.pending id = 0 := by
      rw [h.callsOf hret.1] at hcalls
      omega
    have hreturned : BusInv { st with returned := id :: st.returned } :=
      { fresh := h.fresh
        unique := h.unique
        calls := h.calls
        frames := h.frames
        returned := List.forall_mem_cons.mpr ⟨⟨hret, hzero⟩, h.returned⟩ }
    exact hreturned.pop hthread hentries

theorem BusInv.deactivate (h : BusInv st) (t : Tid) (id : Nat) :
    BusInv (st.mapSubs (deactivate id)) := by
  have hself : (st.mapSubs (Bus.deactivate id)).goto t (st.threads t) =
      st.mapSubs (Bus.deactivate id) := by
    simp [BusState.goto, BusState.mapSubs]
  rw [← hself]
  have hkeeps : Keeps st.ctx (st.mapSubs (Bus.deactivate id)).ctx :=
    keeps_map (deactivate_harmless id)
  refine h.update (deactivate_harmless id) (fun f hf => hkeeps.frameOk (h.frames t f hf)) ?_ ?_
  · intro sub _
    unfold Bus.deactivate
    split <;> rfl
  · exact fun _ _ => le_rfl

omit [Fintype Tid] [DecidableEq Tid] in
theorem retired_deactivate {id : Nat} (hknown : Known st.ctx id) :
    Retired (st.mapSubs (deactivate id)).ctx id := by
  refine ⟨(keeps_map (deactivate_harmless id)).known id hknown, fun sub' hsub' hid => ?_⟩
  obtain ⟨sub, -, rfl⟩ := List.mem_map.mp hsub'
  rw [(deactivate_harmless id).id] at hid
  simp [Bus.deactivate, hid]

end Unsubscribe

section Returned

variable {Tid : Type u} [DecidableEq Tid]

theorem testCalls_returned (st : BusState Tid) (t : Tid) (id : Nat) (rest : List Frame) :
    st.returned ⊆ (st.testCalls t id rest).returned := by
  unfold BusState.testCalls
  split
  · exact List.Subset.refl _
  · exact List.subset_cons_self _ _

theorem frameStep_returned
    (st : BusState Tid) (t : Tid) (alloc : Bool) (rest : List Frame) (frame : Frame) :
    st.returned ⊆ (frameStep st t alloc rest frame).returned := by
  cases frame with
  | unsubscribe id => exact testCalls_returned (st.mapSubs (deactivate id)) t id rest
  | waiting id => exact testCalls_returned st t id rest
  | publish topic =>
      simp only [frameStep]
      split_ifs <;> exact List.Subset.refl _
  | deliver topic entries phase =>
      cases phase <;> cases entries <;> exact List.Subset.refl _
  | subscribe | publishIpc => exact List.Subset.refl _

theorem busStep_returned (st : BusState Tid) (a : BusAction Tid) :
    st.returned ⊆ (busStep st a).returned := by
  cases a with
  | call t call =>
      simp only [busStep]
      split_ifs <;> exact List.Subset.refl _
  | step t alloc =>
      simp only [busStep]
      cases st.threads t with
      | nil => exact List.Subset.refl _
      | cons frame rest => exact frameStep_returned st t alloc rest frame

theorem returned_subset_run (st : BusState Tid) (as : List (BusAction Tid)) :
    st.returned ⊆ (run busStep st as).returned := by
  induction as generalizing st with
  | nil => exact List.Subset.refl _
  | cons a as ih => exact List.Subset.trans (busStep_returned st a) (ih (busStep st a))

end Returned

section Running

variable {Tid : Type u} [Fintype Tid] {st : BusState Tid}

/-- A handler that runs holds an entry. -/
theorem pending_pos_of_running {id : Nat} (h : st.HandlerRunning id) : 0 < st.pending id := by
  obtain ⟨t, frame, hframe, hrunning⟩ := h
  have hmem : id ∈ entriesOf (st.threads t) :=
    List.mem_flatMap.mpr ⟨frame, hframe, Frame.mem_entries_of_running hrunning⟩
  have hle : (entriesOf (st.threads t)).count id ≤ st.pending id :=
    Tally.le_sum (fun t => (entriesOf (st.threads t)).count id) t
  have hpos := List.count_pos_iff.mpr hmem
  omega

end Running

section Runs

variable {Tid : Type u} [DecidableEq Tid] [Fintype Tid] {st : BusState Tid}

theorem BusInv.frameStep (h : BusInv st) {t : Tid} {frame : Frame} {rest : List Frame}
    (hthread : st.threads t = frame :: rest) (alloc : Bool) :
    BusInv (frameStep st t alloc rest frame) := by
  have hframe := (h.rest hthread).1
  cases frame with
  | subscribe topic =>
      exact (h.addSub topic).pop hthread rfl
  | publish topic =>
      simp only [Bus.frameStep]
      split_ifs
      · exact h.advance hthread trivial rfl
      · exact h.takeSnapshot hthread
      · exact h.pop hthread rfl
  | deliver topic entries phase =>
      cases phase with
      | entry => exact h.advance hthread hframe rfl
      | running => exact h.advance hthread hframe rfl
      | exited =>
          cases entries with
          | nil => exact h.advance hthread trivial rfl
          | cons id entries =>
              have hrest := (List.forall_mem_cons.mp hframe).2
              simp only [Bus.frameStep]
              split_ifs with hlast
              · exact h.release hthread trivial hlast.symm
              · exact h.release hthread hrest rfl
  | publishIpc topic => exact h.pop hthread rfl
  | unsubscribe id =>
      exact (h.deactivate t id).testCalls hthread rfl (retired_deactivate hframe)
  | waiting id => exact h.testCalls hthread rfl hframe

theorem BusInv.call (h : BusInv st) {call : Call} (hvalid : call.valid st.ctx = true) (t : Tid) :
    BusInv (st.goto t (call.frame :: st.threads t)) := by
  have hentries : call.frame.entries = [] := by cases call <;> rfl
  refine h.goto (List.forall_mem_cons.mpr ⟨?_, h.frames t⟩) ?_
  · cases call with
    | subscribe | publish => trivial
    | unsubscribe id => simpa [Call.valid, Known, FrameOk, Call.frame] using hvalid
  · simp only [entriesOf, List.flatMap_cons, hentries, List.nil_append]

theorem BusInv.step (st : BusState Tid) (a : BusAction Tid) (h : BusInv st) :
    BusInv (busStep st a) := by
  cases a with
  | call t call =>
      simp only [busStep]
      split_ifs with hcall
      · exact h.call hcall.2 t
      · exact h
  | step t alloc =>
      simp only [busStep]
      cases hthread : st.threads t with
      | nil => exact h
      | cons frame rest => exact h.frameStep hthread alloc

/--
However the threads interleave, `calls` is the number of entries that are taken
and not released, and once `nv_core_pubsub_unsubscribe` has returned no handler of
the subscription runs, then or later.
-/
theorem nvCorePubsub_unsubscribe_barrier (as bs : List (BusAction Tid)) :
    (∀ sub ∈ (run busStep (busInit Tid) as).ctx.subs,
      sub.calls = (run busStep (busInit Tid) as).pending sub.id) ∧
    ∀ id ∈ (run busStep (busInit Tid) as).returned,
      ¬ (run busStep (busInit Tid) (as ++ bs)).HandlerRunning id := by
  have hinv : ∀ as, BusInv (run busStep (busInit Tid) as) :=
    run_invariant BusInv.step busInv_init
  refine ⟨(hinv as).calls, fun id hid hrunning => ?_⟩
  have hlater : id ∈ (run busStep (busInit Tid) (as ++ bs)).returned := by
    rw [run_append]
    exact returned_subset_run _ bs hid
  have hzero := ((hinv (as ++ bs)).returned id hlater).2
  have hpos := pending_pos_of_running hrunning
  omega

end Runs

end Libnv.Bus
