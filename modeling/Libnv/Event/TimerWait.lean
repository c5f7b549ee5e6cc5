import Libnv.Event.TimerList
import Libnv.Event.TimerPass
import Libnv.Lib.CText
import Mathlib.Data.Finset.Card
import Mathlib.Data.UInt

/-!
# Waiting for timers

`nv_loop_run` waits until `next_timeout`, a bound that the calls on timers keep up
to date without looking at the list: an added or modified timer can only lower it,
a deleted one leaves it, and a pass computes it again.  Between the bound and
`epoll_wait` stand a sum that wraps at `2^64` and a conversion to `int`.

Every armed timer carries the exact sum of its arming time and its delay beside the
model.
-/

namespace Libnv.Loop

universe u v w

open DoublyLinked

section Wait

variable {E : Type u} {L : Type v} {H : Type w} [DecidableEq E]

/-- The timeout that `nv_loop_run` passes to `epoll_wait`. -/
def nvLoopRunTimeout (clock : Nat → UInt64) (s : LoopState E L H) : Int × LoopState E L H :=
  match s.head with
  | none => (-1, s)
  | some _ =>
      let (now, s) := nvLoopGetMonotonicTime clock s
      if s.nextTimeout > now then
        (CText.toInt (s.nextTimeout - now).toNat, s)
      else
        (0, s)

/-- What happens to a loop: a call on its timers, a timer pass, or the computation of a wait. -/
inductive LoopAction (E : Type u) where
  | call (c : TimerCall E)
  | pass
  | wait

/-- A loop, its pending timers, and the exact time at which each of them is due. -/
structure DueSystem (E : Type u) (L : Type v) (H : Type w) where
  timers : TimerSystem E L H
  due : E → Nat

/-- The event and the delay of a call that arms a timer. -/
def armedBy : TimerCall E → Option (E × UInt64)
  | .add e ms => some (e, ms)
  | .modify e ms => some (e, ms)
  | .del _ => none
  | .cleanup _ _ => none

/-- The time that the next reading of the clock gives. -/
def DueSystem.now (clock : Nat → UInt64) (t : DueSystem E L H) : Nat :=
  (clock t.timers.loop.clockReads).toNat

def dueCall (clock : Nat → UInt64) (t : DueSystem E L H) (c : TimerCall E) : E → Nat :=
  match armedBy c with
  | some (e, ms) => Function.update t.due e (t.now clock + ms.toNat)
  | none => t.due

/-- The timers that a pass triggers; there are no more visits than pending timers. -/
def firedTimers
    (rearms : H → List UInt64) (clock : Nat → UInt64) (t : TimerSystem E L H) : List E :=
  match nvLoopProcessTimers rearms clock t.pending.card t.loop with
  | some loop => (loop.triggers.drop t.loop.triggers.length).map Prod.fst
  | none => []

def passStep (rearms : H → List UInt64) (clock : Nat → UInt64) (t : TimerSystem E L H) :
    TimerSystem E L H :=
  match nvLoopProcessTimers rearms clock t.pending.card t.loop with
  | some loop => ⟨loop, t.pending.filter (· ∉ firedTimers rearms clock t)⟩
  | none => t

/-- One action. -/
def dueStep (rearms : H → List UInt64) (clock : Nat → UInt64) (t : DueSystem E L H) :
    LoopAction E → DueSystem E L H
  | .call c => ⟨timerStep clock t.timers c, dueCall clock t c⟩
  | .pass => ⟨passStep rearms clock t.timers, t.due⟩
  | .wait => ⟨⟨(nvLoopRunTimeout clock t.timers.loop).2, t.timers.pending⟩, t.due⟩

/--
With a timer pending, the wait does not block for ever and does not last beyond the
earliest expiry; a pass ends and triggers no timer before it is due.
-/
def ActionSound (rearms : H → List UInt64) (clock : Nat → UInt64) (t : DueSystem E L H) :
    LoopAction E → Prop
  | .call _ => True
  | .pass =>
      (nvLoopProcessTimers rearms clock t.timers.pending.card t.timers.loop).isSome ∧
        ∀ e ∈ firedTimers rearms clock t.timers, t.due e ≤ t.now clock
  | .wait =>
      t.timers.pending ≠ ∅ →
        0 ≤ (nvLoopRunTimeout clock t.timers.loop).1 ∧
          ∀ e ∈ t.timers.pending,
            t.now clock + (nvLoopRunTimeout clock t.timers.loop).1 ≤
              max (t.now clock) (t.timers.loop.ev e).expireTime.toNat

/--
The condition on an action.  A call finds its timer pending or not, as it needs to, and
the sum that it computes is neither `0` nor too large for 64 bits; no timer that is due
at a pass re-arms itself; and a wait is less than `2^31` milliseconds, modulo `2^32`.
-/
def ActionOk (rearms : H → List UInt64) (clock : Nat → UInt64) (t : DueSystem E L H) :
    LoopAction E → Prop
  | .call c =>
      TimerCallOk t.timers c ∧
        ∀ e ms, armedBy c = some (e, ms) →
          0 < t.now clock + ms.toNat ∧ t.now clock + ms.toNat < 2 ^ 64
  | .pass =>
      ∀ e ∈ t.timers.pending,
        Expired (clock t.timers.loop.clockReads) t.timers.loop e →
          ¬ Rearms rearms t.timers.loop e
  | .wait =>
      t.timers.pending ≠ ∅ →
        (t.timers.loop.nextTimeout.toNat - t.now clock) % 2 ^ 32 < 2 ^ 31

end Wait

section Invariant

variable {E : Type u} {L : Type v} {H : Type w} [DecidableEq E]
variable {rearms : H → List UInt64} {clock : Nat → UInt64}
variable {c : TimerCall E} {e : E} {t : DueSystem E L H}

/-- The list is the set of the pending timers, these expire exactly when they are due, and none
of them before `next_timeout`. -/
structure DueInv (t : DueSystem E L H) : Prop where
  list : TimerInv t.timers
  exact : ∀ e ∈ t.timers.pending, (t.timers.loop.ev e).expireTime.toNat = t.due e
  pos : ∀ e ∈ t.timers.pending, 0 < t.due e
  bound : t.timers.pending ≠ ∅ → t.timers.loop.nextTimeout ≠ 0 ∧
    ∀ e ∈ t.timers.pending, t.timers.loop.nextTimeout ≤ (t.timers.loop.ev e).expireTime

theorem timerCall_arms (clock : Nat → UInt64) (s : LoopState E L H) (pending : Finset E)
    {ms : UInt64} (hc : armedBy c = some (e, ms)) :
    pendingCall pending c = insert e pending ∧
      (∀ x, ((timerCall clock s c).ev x).expireTime =
        if x = e then clock s.clockReads + ms else (s.ev x).expireTime) ∧
      (timerCall clock s c).nextTimeout =
        if s.nextTimeout = 0 ∨ clock s.clockReads + ms < s.nextTimeout
        then clock s.clockReads + ms else s.nextTimeout := by
  cases c with
  | add e' ms' =>
      obtain ⟨rfl, rfl⟩ : e' = e ∧ ms' = ms := by simpa [armedBy] using hc
      refine ⟨rfl, fun x => ?_, rfl⟩
      rw [timerCall, nvLoopAddTimer_apply]
  | modify e' ms' =>
      obtain ⟨rfl, rfl⟩ : e' = e ∧ ms' = ms := by simpa [armedBy] using hc
      refine ⟨rfl, fun x => ?_, rfl⟩
      simp only [timerCall, nvLoopModifyTimer, nvLoopGetMonotonicTime,
        nvLoopAddEventToList_apply, Heap.modify, nvLoopRemoveEventFromList_apply]
      by_cases hx : x = e'
      · simp [hx]
      · simp [hx]
  | del e' => cases hc
  | cleanup e' registered => cases hc

theorem setPrev_expireTime (h : Heap E L H) (p : E) (v : Option E) (x : E) :
    ((h.setPrev p v) x).expireTime = (h x).expireTime := rfl

theorem setNext_expireTime (h : Heap E L H) (p : E) (v : Option E) (x : E) :
    ((h.setNext p v) x).expireTime = (h x).expireTime := rfl

theorem modify_expireTime
    {f : EventExt E L H → EventExt E L H} (hf : ∀ x, (f x).expireTime = x.expireTime)
    (h : Heap E L H) (e x : E) : ((h.modify e f) x).expireTime = (h x).expireTime := by
  by_cases hx : x = e <;> simp [Heap.modify, hx, hf]

theorem nvEventCleanup_expireTime (h : Heap E L H) (e : E) (registered : Bool) (x : E) :
    ((nvEventCleanup h e registered) x).expireTime = (h x).expireTime := by
  have hcase : ∀ h' : Heap E L H, ((nvEventCleanup h' e false) x).expireTime =
      (h' x).expireTime := by
    intro h'
    refine (modify_expireTime ?_ _ e x).trans ?_
    · exact fun _ => rfl
    · simp only [setPrev_expireTime, setNext_expireTime, Bool.false_eq_true, if_false]
      cases (h' e).next with
      | none => cases (h' e).prev <;> rfl
      | some n => cases ((h'.setPrev n (h' e).prev) e).prev <;> rfl
  cases registered with
  | false => exact hcase h
  | true =>
      refine (hcase (h.modify e fun x => { x with loop := none })).trans ?_
      apply modify_expireTime
      exact fun _ => rfl

theorem timerCall_keeps (clock : Nat → UInt64) (s : LoopState E L H) (pending : Finset E)
    (hc : armedBy c = none) :
    pendingCall pending c ⊆ pending ∧
      (∀ x, ((timerCall clock s c).ev x).expireTime = (s.ev x).expireTime) ∧
      (timerCall clock s c).nextTimeout = s.nextTimeout := by
  cases c with
  | add e ms => cases hc
  | modify e ms => cases hc
  | del e =>
      refine ⟨Finset.erase_subset e pending, fun x => ?_, rfl⟩
      rw [timerCall, nvLoopDelTimer]
      dsimp only
      rw [modify_expireTime, nvLoopRemoveEventFromList_apply]
      exact fun _ => rfl
  | cleanup e registered =>
      exact ⟨Finset.erase_subset e pending, nvEventCleanup_expireTime s.ev e registered, rfl⟩

theorem DueInv.call_keeps (hi : DueInv t) (hc : armedBy c = none)
    (hlist : TimerInv (timerStep clock t.timers c)) :
    DueInv (dueStep rearms clock t (.call c)) := by
  obtain ⟨hsub, hexpire, hnext⟩ := timerCall_keeps clock t.timers.loop t.timers.pending hc
  have hdue : dueCall clock t c = t.due := by simp [dueCall, hc]
  refine ⟨hlist, ?_, ?_, ?_⟩
  · intro e he
    simp only [dueStep, timerStep, hexpire, hdue]
    exact hi.exact e (hsub he)
  · intro e he
    simp only [dueStep, hdue]
    exact hi.pos e (hsub he)
  · intro hne
    have hne' : t.timers.pending ≠ ∅ := fun hempty =>
      hne (Finset.subset_empty.mp (hsub.trans hempty.subset))
    obtain ⟨hnonzero, hbound⟩ := hi.bound hne'
    simp only [dueStep, timerStep, hexpire, hnext]
    exact ⟨hnonzero, fun e he => hbound e (hsub he)⟩

theorem nextTimeout_arm {next expire : UInt64} (hzero : expire ≠ 0) :
    (if next = 0 ∨ expire < next then expire else next) ≠ 0 ∧
      (if next = 0 ∨ expire < next then expire else next) ≤ expire ∧
      (next ≠ 0 → (if next = 0 ∨ expire < next then expire else next) ≤ next) := by
  split
  · rename_i hlower
    refine ⟨hzero, UInt64.le_refl _, fun hnext => ?_⟩
    exact UInt64.le_of_lt (hlower.resolve_left hnext)
  · rename_i hlower
    rw [not_or] at hlower
    exact ⟨hlower.1, UInt64.not_lt.mp hlower.2, fun _ => UInt64.le_refl _⟩

theorem DueInv.call_arms (hi : DueInv t) {ms : UInt64}
    (hc : armedBy c = some (e, ms)) (hlist : TimerInv (timerStep clock t.timers c))
    (hpos : 0 < t.now clock + ms.toNat) (hlt : t.now clock + ms.toNat < 2 ^ 64) :
    DueInv (dueStep rearms clock t (.call c)) := by
  obtain ⟨hpending, hexpire, hnext⟩ := timerCall_arms clock t.timers.loop t.timers.pending hc
  have hdue : dueCall clock t c = Function.update t.due e (t.now clock + ms.toNat) := by
    simp [dueCall, hc]
  have hnat : (clock t.timers.loop.clockReads + ms).toNat = t.now clock + ms.toNat := by
    rw [UInt64.toNat_add]
    exact Nat.mod_eq_of_lt hlt
  have hzero : clock t.timers.loop.clockReads + ms ≠ 0 := by
    intro h0
    rw [h0, UInt64.toNat_zero] at hnat
    omega
  have hin : ∀ {x}, x ∈ (dueStep rearms clock t (.call c)).timers.pending → x ≠ e →
      x ∈ t.timers.pending := by
    intro x hx hne
    simp only [dueStep, timerStep, hpending] at hx
    exact Finset.mem_of_mem_insert_of_ne hx hne
  refine ⟨hlist, ?_, ?_, ?_⟩
  · intro x hx
    simp only [dueStep, timerStep, hexpire, hdue]
    rcases eq_or_ne x e with rfl | hne
    · simp [hnat]
    · simpa [hne] using hi.exact x (hin hx hne)
  · intro x hx
    simp only [dueStep, hdue]
    rcases eq_or_ne x e with rfl | hne
    · simpa using hpos
    · simpa [hne] using hi.pos x (hin hx hne)
  · intro _
    obtain ⟨hnonzero, hself, hold⟩ := nextTimeout_arm hzero
    rw [← hnext] at hnonzero hself hold
    refine ⟨hnonzero, fun x hx => ?_⟩
    change (timerCall clock t.timers.loop c).nextTimeout ≤ _
    simp only [dueStep, timerStep, hexpire]
    rcases eq_or_ne x e with rfl | hne
    · simpa using hself
    · obtain ⟨hne0, hbound⟩ := hi.bound (Finset.ne_empty_of_mem (hin hx hne))
      rw [if_neg hne]
      exact UInt64.le_trans (hold hne0) (hbound x (hin hx hne))

theorem DueInv.call (hi : DueInv t) (c : TimerCall E) (hok : ActionOk rearms clock t (.call c)) :
    DueInv (dueStep rearms clock t (.call c)) := by
  obtain ⟨hcall, hsum⟩ := hok
  have hlist := hi.list.step clock c hcall
  cases hc : armedBy c with
  | none => exact hi.call_keeps hc hlist
  | some armed =>
      obtain ⟨e, ms⟩ := armed
      obtain ⟨hpos, hlt⟩ := hsum e ms hc
      exact hi.call_arms hc hlist hpos hlt

theorem Fired.timerList {s s' : LoopState E L H} {kept rest : List E}
    (hf : Fired s s' e) (hl : TimerList s (kept ++ e :: rest)) : TimerList s' (kept ++ rest) := by
  have hprev : s.ev.prev e = kept.getLast? := (linked_member hl.linked).1
  refine hl.unlink hf.next hf.prev ?_
  rw [hf.head, hprev]
  simp

theorem DueInv.pass (hi : DueInv t) (hok : ActionOk rearms clock t .pass) :
    ActionSound rearms clock t .pass ∧ DueInv (dueStep rearms clock t .pass) := by
  obtain ⟨l, hl, hmem⟩ := hi.list
  have hcard : l.length ≤ t.timers.pending.card := by
    have hsub : l.toFinset ⊆ t.timers.pending := fun x hx => (hmem x).mp (List.mem_toFinset.mp hx)
    rw [← List.toFinset_card_of_nodup hl.nodup]
    exact Finset.card_le_card hsub
  obtain ⟨s', hrun, hl', hpass, hmin⟩ :=
    nvLoopProcessTimers_quiet rearms clock (P := TimerList)
      (fun _ _ hl => ⟨hl.nodup, hl.linked⟩) (fun _ _ _ _ _ hl hf => hf.timerList hl)
      (fun s s' l _ hev hhead hl => hl.congr (by rw [hev]) (by rw [hev]) hhead) hl
      (fun e he => hok e ((hmem e).mp he)) hcard
  have hfired : firedTimers rearms clock t.timers =
      l.filter fun e => Expired (clock t.timers.loop.clockReads) t.timers.loop e := by
    rw [firedTimers, hrun]
    dsimp only
    rw [hpass.triggers, List.drop_left, List.map_map]
    exact List.map_id _
  have hstep : dueStep rearms clock t .pass =
      ⟨⟨s', t.timers.pending.filter (· ∉ firedTimers rearms clock t.timers)⟩, t.due⟩ := by
    simp only [dueStep, passStep, hrun]
  have hkept : ∀ e, e ∈ t.timers.pending.filter (· ∉ firedTimers rearms clock t.timers) ↔
      e ∈ l.filter fun e => ¬ Expired (clock t.timers.loop.clockReads) t.timers.loop e := by
    intro e
    rw [Finset.mem_filter, hfired, List.mem_filter, List.mem_filter, ← hmem e]
    by_cases hexp : Expired (clock t.timers.loop.clockReads) t.timers.loop e
    · simp [hexp]
    · simp [hexp]
  refine ⟨⟨by rw [hrun]; rfl, ?_⟩, ?_⟩
  · intro e he
    rw [hfired, List.mem_filter] at he
    have hexp : (t.timers.loop.ev e).expireTime ≤ clock t.timers.loop.clockReads :=
      of_decide_eq_true he.2
    rw [← hi.exact e ((hmem e).mp he.1)]
    exact UInt64.le_iff_toNat_le.mp hexp
  · rw [hstep]
    refine ⟨⟨_, hl', fun e => (hkept e).symm⟩, ?_, ?_, ?_⟩
    · intro e he
      change (s'.ev e).expireTime.toNat = t.due e
      rw [hpass.expireTime e]
      exact hi.exact e (Finset.mem_of_mem_filter e he)
    · intro e he
      exact hi.pos e (Finset.mem_of_mem_filter e he)
    · intro hne
      rcases hmin with ⟨hnil, -⟩ | ⟨hmem', hle⟩
      · obtain ⟨e, he⟩ := Finset.nonempty_iff_ne_empty.mpr hne
        have hin := (hkept e).mp he
        rw [List.map_eq_nil_iff.mp hnil] at hin
        exact absurd hin List.not_mem_nil
      · obtain ⟨m, hm, hmt⟩ := List.mem_map.mp hmem'
        have hpend : ¬ Expired (clock t.timers.loop.clockReads) t.timers.loop m := by
          simpa using (List.mem_filter.mp hm).2
        refine ⟨?_, fun e he => ?_⟩
        · change s'.nextTimeout ≠ 0
          rw [← hmt]
          exact expireTime_ne_zero hpend
        · change s'.nextTimeout ≤ (s'.ev e).expireTime
          rw [hpass.expireTime e]
          exact hle _ (List.mem_map.mpr ⟨e, (hkept e).mp he, rfl⟩)

/-- The wait ends by the earliest expiry, if it is not too long for an `int`. -/
theorem DueInv.wait_sound (hi : DueInv t) (hok : ActionOk rearms clock t .wait) :
    ActionSound rearms clock t .wait := by
  intro hne
  have hsmall := hok hne
  obtain ⟨-, hbound⟩ := hi.bound hne
  have hhead : ∃ e, t.timers.loop.head = some e := by
    cases hh : t.timers.loop.head with
    | none => exact absurd (pending_empty_of_head hi.list.refines hh) hne
    | some e => exact ⟨e, rfl⟩
  obtain ⟨first, hfirst⟩ := hhead
  simp only [nvLoopRunTimeout, hfirst, nvLoopGetMonotonicTime]
  by_cases hlater : t.timers.loop.nextTimeout > clock t.timers.loop.clockReads
  · rw [if_pos hlater]
    have hlt : t.now clock < t.timers.loop.nextTimeout.toNat := UInt64.lt_iff_toNat_lt.mp hlater
    have hsub : (t.timers.loop.nextTimeout - clock t.timers.loop.clockReads).toNat =
        t.timers.loop.nextTimeout.toNat - t.now clock :=
      UInt64.toNat_sub_of_le _ _ (UInt64.le_of_lt hlater)
    have hint : CText.toInt ((t.timers.loop.nextTimeout -
        clock t.timers.loop.clockReads).toNat) =
          ((t.timers.loop.nextTimeout.toNat - t.now clock) % 2 ^ 32 : Nat) := by
      rw [hsub, CText.toInt, Int.bmod_def]
      omega
    have hmod := Nat.mod_le (t.timers.loop.nextTimeout.toNat - t.now clock) (2 ^ 32)
    rw [hint]
    refine ⟨Int.natCast_nonneg _, fun e he => ?_⟩
    have hle := UInt64.le_iff_toNat_le.mp (hbound e he)
    omega
  · rw [if_neg hlater]
    refine ⟨le_refl 0, fun e _ => ?_⟩
    omega

theorem DueInv.wait (hi : DueInv t) : DueInv (dueStep rearms clock t .wait) := by
  have hloop : ∃ k, (nvLoopRunTimeout clock t.timers.loop).2 =
      { t.timers.loop with clockReads := k } := by
    unfold nvLoopRunTimeout
    cases t.timers.loop.head with
    | none => exact ⟨t.timers.loop.clockReads, rfl⟩
    | some e =>
        dsimp only [nvLoopGetMonotonicTime]
        split
        · exact ⟨_, rfl⟩
        · exact ⟨_, rfl⟩
  obtain ⟨k, hk⟩ := hloop
  obtain ⟨l, hl, hmem⟩ := hi.list
  simp only [dueStep, hk]
  exact ⟨⟨l, hl.congr rfl rfl rfl, hmem⟩, hi.exact, hi.pos, hi.bound⟩

theorem DueInv.step (hi : DueInv t) (a : LoopAction E) (hok : ActionOk rearms clock t a) :
    ActionSound rearms clock t a ∧ DueInv (dueStep rearms clock t a) := by
  cases a with
  | call c => exact ⟨trivial, hi.call c hok⟩
  | pass => exact hi.pass hok
  | wait => exact ⟨hi.wait_sound hok, hi.wait⟩

/--
From a loop without timers, with any clock: if every action of a sequence meets the
condition, then no wait oversleeps and no timer fires early.
-/
theorem nvLoop_waits_and_fires_in_time
    (rearms : H → List UInt64)
    (clock : Nat → UInt64)
    (s : LoopState E L H)
    (hs : Unlinked s)
    (due : E → Nat)
    (as : List (LoopAction E))
    (hok : Transition.Along (dueStep rearms clock) (ActionOk rearms clock) ⟨⟨s, ∅⟩, due⟩ as) :
    Transition.Along (dueStep rearms clock) (ActionSound rearms clock) ⟨⟨s, ∅⟩, due⟩ as := by
  have hinit : DueInv (⟨⟨s, ∅⟩, due⟩ : DueSystem E L H) := by
    refine ⟨⟨[], ⟨List.nodup_nil, ⟨none, rfl, hs.1.symm⟩, fun e _ => hs.2 e⟩, ?_⟩, ?_, ?_, ?_⟩
    · intro e
      simp
    · intro e he
      exact absurd he (Finset.notMem_empty e)
    · intro e he
      exact absurd he (Finset.notMem_empty e)
    · intro hne
      exact absurd rfl hne
  have hall : ∀ a ∈ as, True := fun _ _ => trivial
  exact Transition.along_of_along (fun _ a hi _ ha => hi.step a ha) hinit hall hok

end Invariant

/-- A timer of one second is waited for and fires after it. -/
theorem emptyLoop_waits_in_time :
    Transition.Along (dueStep (fun _ => []) fun n => UInt64.ofNat (1000 * n))
      (ActionSound (fun _ => []) fun n => UInt64.ofNat (1000 * n)) ⟨⟨emptyLoop, ∅⟩, fun _ => 0⟩
      [.call (.add 0 1000), .wait, .pass] := by
  refine nvLoop_waits_and_fires_in_time _ _ emptyLoop emptyLoop_unlinked _ _ ?_
  refine ⟨⟨by decide, ?_⟩, fun _ => by decide, ?_, trivial⟩
  · rintro e ms hms
    obtain ⟨rfl, rfl⟩ : 0 = e ∧ 1000 = ms := by simpa [armedBy] using hms
    decide
  · rintro e - - ⟨f, -, hne⟩
    exact hne rfl

/-- A delay of `2^31` milliseconds makes the wait block for ever, and one of `2^64 - 1`
milliseconds fires at once. -/
theorem long_delays_fail :
    (nvLoopRunTimeout (fun _ => 0)
        (dueStep (fun _ => []) (fun _ => 0) ⟨⟨emptyLoop, ∅⟩, fun _ => 0⟩
          (.call (.add 0 (2 ^ 31)))).timers.loop).1 = -2 ^ 31 ∧
      ¬ Transition.Along (dueStep (fun _ => []) fun _ => 0) (ActionSound (fun _ => []) fun _ => 0)
        ⟨⟨emptyLoop, ∅⟩, fun _ => 0⟩ [.call (.add 0 (2 ^ 31)), .wait] ∧
      ¬ Transition.Along (dueStep (fun _ => []) fun _ => 10)
        (ActionSound (fun _ => []) fun _ => 10)
        ⟨⟨emptyLoop, ∅⟩, fun _ => 0⟩ [.call (.add 0 (2 ^ 64 - 1)), .pass] := by
  refine ⟨by decide +kernel, ?_, ?_⟩
  · rintro ⟨-, hwait, -⟩
    have hneg := (hwait (by decide)).1
    exact absurd hneg (by decide +kernel)
  · rintro ⟨-, ⟨-, hearly⟩, -⟩
    have hfired : (0 : Fin 2) ∈ firedTimers (fun _ => []) (fun _ => 10)
        (timerStep (fun _ => 10) ⟨emptyLoop, ∅⟩ (.add 0 (2 ^ 64 - 1))) := by
      decide +kernel
    exact absurd (hearly 0 hfired) (by decide +kernel)

end Libnv.Loop
