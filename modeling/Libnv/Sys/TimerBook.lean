import Libnv.Sys.TimerTask
import Mathlib.Logic.Function.Basic

/-!
# Timers that callbacks manage

A pass of `nv_timer_manager_process_once` copies the descriptor, the callback and
the kind of a timer, runs the callback, and then cancels the descriptor if the kind
was one-shot.  By then the callback may have armed the timer again, or cancelled it
and created another one that has got the same descriptor.

What callers may expect is kept in a book, by the numbers of the timers: their
callback, data and kind, and whether they have expired, which is to say that they
were one-shot, their callback has run in this pass, and no call has armed them
since.  After the pass the table should hold the timers of the book that have not
expired, and no others.
-/

namespace Libnv.TimerTask

open Transition

universe u v

variable {C : Type u} {D : Type v}

/-- What is expected of a timer. -/
structure TimerRecord (C : Type u) (D : Type v) where
  callback : Option C
  userData : Option D
  kind : TimerKind
  expired : Bool
deriving DecidableEq

def Timer.record (t : Timer C D) (expired : Bool) : TimerRecord C D :=
  ⟨t.callback, t.userData, t.kind, expired⟩

/-- The timers that were created and not cancelled, by their numbers. -/
abbrev TimerBook (C : Type u) (D : Type v) : Type (max u v) := Nat → Option (TimerRecord C D)

namespace TimerBook

/-- Changes the record of a timer. -/
def revise (book : TimerBook C D) (t : Timer C D) (f : TimerRecord C D → TimerRecord C D) :
    TimerBook C D :=
  Function.update book t.serial ((book t.serial).map f)

/-- A call has created, cancelled or modified a timer. -/
def enter (book : TimerBook C D) : TimerEvent C D → TimerBook C D
  | .created t => Function.update book t.serial (some (t.record false))
  | .cancelled t => Function.update book t.serial none
  | .modified t times =>
      book.revise t fun r =>
        { r with kind := times.kind, expired := r.expired && ! times.arms }

/-- The callback of a timer is called. -/
def ran (book : TimerBook C D) (t : Timer C D) : TimerBook C D :=
  book.revise t fun r => { r with expired := r.expired || r.kind = .oneshot }

end TimerBook

/-- The timers of a table, at the start of a pass. -/
def bookOf (timers : List (Timer C D)) : TimerBook C D :=
  fun serial => (timers.find? fun t => 0 < t.fd ∧ t.serial = serial).map (Timer.record · false)

/--
The table holds the timers of the book that have not expired, as the book has them.  That a
timer is gone only if it was cancelled or has expired is half of this: an expired one is gone.
-/
def Keeps (timers : List (Timer C D)) (book : TimerBook C D) : Prop :=
  ∀ serial r, book serial = some r →
    if r.expired then ∀ t ∈ registered timers, t.serial ≠ serial
    else ∃ t ∈ registered timers, t.serial = serial ∧ t.record false = r

/-- The manager in a pass, and the book. -/
structure PassState (C : Type u) (D : Type v) where
  mgr : TimerManager C D
  book : TimerBook C D

def passCall (s : PassState C D) (call : TimerCall C D) : PassState C D where
  mgr := applyCall s.mgr call
  book := (call.event s.mgr).elim s.book s.book.enter

def passCallback (s : PassState C D) (t : Timer C D) (calls : List (TimerCall C D)) :
    PassState C D :=
  if t.callback.isSome then run passCall { s with book := s.book.ran t } calls else s

/-- An iteration of the loop of `nv_timer_manager_process_once`. -/
def passEvent (s : PassState C D) (event : Ready C D) : PassState C D :=
  match s.mgr.fires event with
  | none => s
  | some t =>
      let s := passCallback s t event.calls
      if t.kind = .oneshot then { s with mgr := (nvTimerManagerCancel s.mgr t.fd).1 } else s

def passStart (m : TimerManager C D) : PassState C D where
  mgr := m
  book := bookOf m.timers

/--
The one-shot timer that is cancelled after its callback is the one that has fired,
and it has not been armed again.
-/
def CancelsExpired (s : PassState C D) (event : Ready C D) : Prop :=
  ∀ t, s.mgr.fires event = some t → t.kind = .oneshot →
    ∀ u ∈ registered (passCallback s t event.calls).mgr.timers, u.fd = t.fd →
      u.serial = t.serial ∧
        ∃ r, (passCallback s t event.calls).book t.serial = some r ∧ r.expired = true

theorem passCall_mgr (s : PassState C D) (calls : List (TimerCall C D)) :
    (run passCall s calls).mgr = run applyCall s.mgr calls := by
  induction calls generalizing s with
  | nil => rfl
  | cons call calls ih => exact ih _

theorem passCallback_mgr (s : PassState C D) (t : Timer C D) (calls : List (TimerCall C D)) :
    (passCallback s t calls).mgr = runCallback s.mgr t calls := by
  unfold passCallback runCallback
  split_ifs
  · exact passCall_mgr _ calls
  · rfl

theorem passEvent_mgr (s : PassState C D) (event : Ready C D) :
    (passEvent s event).mgr = processEvent s.mgr event := by
  unfold passEvent processEvent
  cases s.mgr.fires event with
  | none => rfl
  | some t =>
      simp only [← passCallback_mgr]
      split_ifs <;> rfl

theorem run_passEvent_mgr (s : PassState C D) (events : List (Ready C D)) :
    (run passEvent s events).mgr = run processEvent s.mgr events := by
  induction events generalizing s with
  | nil => rfl
  | cons event events ih => rw [run_cons, run_cons, ih, passEvent_mgr]

section Agree

/-- The timer that may have expired and still be in the table, with its descriptor. -/
def running (t : Timer C D) : Option (Nat × Int) :=
  if t.kind = .oneshot then some (t.serial, t.fd) else none

/-- The table and the book agree, while the callback of the timer `now` runs. -/
structure Agree (now : Option (Nat × Int)) (s : PassState C D) : Prop where
  sound : Sound s.mgr
  held : ∀ t ∈ registered s.mgr.timers, ∃ expired, s.book t.serial = some (t.record expired) ∧
    (expired = true → now = some (t.serial, t.fd))
  kept : ∀ serial r, s.book serial = some r →
    r.expired = true ∨ ∃ t ∈ registered s.mgr.timers, t.serial = serial
  below : ∀ serial r, s.book serial = some r → serial < s.mgr.created

/-- A timer of the book is not in the table, though it has not expired. -/
structure Lost (s : PassState C D) : Prop where
  sound : Sound s.mgr
  lost : ∃ serial r, s.book serial = some r ∧ r.expired = false ∧ serial < s.mgr.created ∧
    ∀ t ∈ registered s.mgr.timers, t.serial ≠ serial

variable {s : PassState C D} {m : TimerManager C D} {now : Option (Nat × Int)}

theorem Agree.keeps (h : Agree none s) : Keeps s.mgr.timers s.book := by
  intro serial r hr
  split_ifs with hexpired
  · rintro t ht rfl
    obtain ⟨expired, hrecord, hnow⟩ := h.held t ht
    rw [hr, Option.some.injEq] at hrecord
    subst hrecord
    cases hnow hexpired
  · obtain ⟨t, ht, rfl⟩ := (h.kept serial r hr).resolve_left hexpired
    obtain ⟨expired, hrecord, -⟩ := h.held t ht
    rw [hr, Option.some.injEq] at hrecord
    subst hrecord
    have hfalse : expired = false := Bool.eq_false_iff.mpr hexpired
    exact ⟨t, ht, rfl, by rw [hfalse]⟩

theorem Lost.not_keeps (h : Lost s) : ¬ Keeps s.mgr.timers s.book := by
  intro hkeeps
  obtain ⟨serial, r, hr, hexpired, -, hgone⟩ := h.lost
  have hthere := hkeeps serial r hr
  rw [hexpired] at hthere
  obtain ⟨t, ht, hserial, -⟩ := hthere
  exact hgone t ht hserial

theorem bookOf_eq_some_iff {serial : Nat} {r : TimerRecord C D} (h : Sound m) :
    bookOf m.timers serial = some r ↔
      ∃ t ∈ registered m.timers, t.serial = serial ∧ t.record false = r := by
  unfold bookOf
  rw [Option.map_eq_some_iff]
  constructor
  · rintro ⟨t, hfind, rfl⟩
    have ht : 0 < t.fd ∧ t.serial = serial := by simpa using List.find?_some hfind
    exact ⟨t, ⟨List.mem_of_find?_eq_some hfind, ht.1⟩, ht.2, rfl⟩
  · rintro ⟨t, ht, rfl, rfl⟩
    cases hfind : m.timers.find? fun u => 0 < u.fd ∧ u.serial = t.serial with
    | none => simpa [ht.2] using List.find?_eq_none.mp hfind t ht.1
    | some u =>
        have hu : 0 < u.fd ∧ u.serial = t.serial := by simpa using List.find?_some hfind
        have hmem : u ∈ registered m.timers := ⟨List.mem_of_find?_eq_some hfind, hu.1⟩
        exact ⟨u, rfl, by rw [h.serial_inj u hmem t ht hu.2]⟩

theorem Agree.start (h : Sound m) : Agree none (passStart m) where
  sound := h
  held t ht := ⟨false, (bookOf_eq_some_iff h).mpr ⟨t, ht, rfl, rfl⟩,
    fun hfalse => absurd hfalse Bool.false_ne_true⟩
  kept serial r hr := by
    obtain ⟨t, ht, hserial, -⟩ := (bookOf_eq_some_iff h).mp hr
    exact .inr ⟨t, ht, hserial⟩
  below serial r hr := by
    obtain ⟨t, ht, rfl, -⟩ := (bookOf_eq_some_iff h).mp hr
    exact h.serial_lt t ht

end Agree

section Touches

/-- A change that concerns the timer with the number `k` only. -/
structure Touches (k : Nat) (s s' : PassState C D) : Prop where
  sound : Sound s'.mgr
  book : ∀ serial, serial ≠ k → s'.book serial = s.book serial
  timers : ∀ t : Timer C D, t.serial ≠ k →
    (t ∈ registered s'.mgr.timers ↔ t ∈ registered s.mgr.timers)
  created : s.mgr.created ≤ s'.mgr.created

variable {s s' : PassState C D} {k : Nat} {now now' : Option (Nat × Int)}

theorem Agree.touch (h : Agree now s) (htouch : Touches k s s') (hnow : now = none ∨ now' = now)
    (hheld : ∀ t ∈ registered s'.mgr.timers, t.serial = k →
      ∃ expired, s'.book k = some (t.record expired) ∧
        (expired = true → now' = some (t.serial, t.fd)))
    (hkept : ∀ r, s'.book k = some r →
      (∃ t ∈ registered s'.mgr.timers, t.serial = k) ∧ k < s'.mgr.created) : Agree now' s' := by
  refine ⟨htouch.sound, ?_, ?_, ?_⟩
  · intro t ht
    by_cases hk : t.serial = k
    · exact hk ▸ hheld t ht hk
    · obtain ⟨expired, hrecord, hrunning⟩ := h.held t ((htouch.timers t hk).mp ht)
      refine ⟨expired, (htouch.book t.serial hk).trans hrecord, fun hexpired => ?_⟩
      obtain rfl | rfl := hnow
      · cases hrunning hexpired
      · exact hrunning hexpired
  · intro serial r hr
    by_cases hk : serial = k
    · subst hk
      exact .inr (hkept r hr).1
    · rw [htouch.book serial hk] at hr
      refine (h.kept serial r hr).imp_right ?_
      rintro ⟨t, ht, rfl⟩
      exact ⟨t, (htouch.timers t hk).mpr ht, rfl⟩
  · intro serial r hr
    by_cases hk : serial = k
    · subst hk
      exact (hkept r hr).2
    · rw [htouch.book serial hk] at hr
      exact Nat.lt_of_lt_of_le (h.below serial r hr) htouch.created

theorem Lost.touch (h : Lost s) (htouch : Touches k s s')
    (hk : s.mgr.created ≤ k ∨ ∃ t ∈ registered s.mgr.timers, t.serial = k) : Lost s' := by
  obtain ⟨serial, r, hr, hexpired, hlt, hgone⟩ := h.lost
  have hne : serial ≠ k := by
    obtain hk | ⟨t, ht, rfl⟩ := hk
    · omega
    · exact (hgone t ht).symm
  refine ⟨htouch.sound, serial, r, (htouch.book serial hne).trans hr, hexpired,
    Nat.lt_of_lt_of_le hlt htouch.created, ?_⟩
  rintro t ht rfl
  exact hgone t ((htouch.timers t hne).mp ht) rfl

end Touches

section Calls

def TimerCall.Names (fd : Int) : TimerCall C D → Prop
  | .create .. => False
  | .cancel timerFd => timerFd = fd
  | .modify timerFd _ _ => timerFd = fd

variable {s : PassState C D} {m : TimerManager C D} {now : Option (Nat × Int)}

theorem names_of_cancelled
    {call : TimerCall C D} {t : Timer C D} (h : call.event m = some (.cancelled t)) :
    call.Names t.fd := by
  cases call with
  | create times callback userData os => simp [TimerCall.event] at h
  | cancel timerFd =>
      have hfind : findTimer m.timers timerFd = some t := by simpa [TimerCall.event] using h
      exact (findTimer_some hfind).2.symm
  | modify timerFd times settime => simp [TimerCall.event] at h

theorem names_of_modified {call : TimerCall C D} {t : Timer C D} {times : TimerTimes}
    (h : call.event m = some (.modified t times)) : call.Names t.fd := by
  cases call with
  | create times callback userData os => simp [TimerCall.event] at h
  | cancel timerFd => simp [TimerCall.event] at h
  | modify timerFd times settime =>
      have hfind : findTimer m.timers timerFd = some t := by
        simp only [TimerCall.event, Option.ite_none_right_eq_some, Option.map_eq_some_iff] at h
        obtain ⟨-, u, hfind, hevent⟩ := h
        cases hevent
        exact hfind
      exact (findTimer_some hfind).2.symm

theorem passCall_touches (hsound : Sound s.mgr) (call : TimerCall C D) :
    ∃ k, Touches k s (passCall s call) ∧
      (s.mgr.created ≤ k ∨ ∃ t ∈ registered s.mgr.timers, t.serial = k ∧ call.Names t.fd) ∧
      ∀ now, Agree now s → Agree now (passCall s call) := by
  have hsound' : Sound (passCall s call).mgr := hsound.applyCall s.mgr call
  obtain ⟨hchanges, -⟩ := applyCall_spec hsound.distinct call
  unfold passCall at hsound' ⊢
  generalize applyCall s.mgr call = m' at hsound' hchanges ⊢
  have hcancelled : ∀ t, call.event s.mgr = some (.cancelled t) → call.Names t.fd :=
    fun _ => names_of_cancelled
  have hmodified : ∀ t times, call.event s.mgr = some (.modified t times) → call.Names t.fd :=
    fun _ _ => names_of_modified
  generalize call.event s.mgr = event at hchanges hcancelled hmodified ⊢
  cases hchanges with
  | none htimers hcreated =>
      refine ⟨s.mgr.created, ⟨hsound', fun _ _ => rfl, fun t _ => by rw [htimers], hcreated⟩,
        .inl (Nat.le_refl _), fun now h => ⟨hsound', ?_, ?_, ?_⟩⟩
      · rw [htimers]
        exact h.held
      · rw [htimers]
        exact h.kept
      · exact fun serial r hr => Nat.lt_of_lt_of_le (h.below serial r hr) hcreated
  | created t hserial _ htimers hcreated =>
      have htouch : Touches t.serial s ⟨m', s.book.enter (.created t)⟩ := by
        refine ⟨hsound', fun serial hne => Function.update_of_ne hne _ _, fun u hu => ?_,
          hcreated ▸ Nat.le_succ _⟩
        rw [htimers, Set.mem_insert_iff, or_iff_right]
        rintro rfl
        exact hu rfl
      have hmem : t ∈ registered m'.timers := htimers ▸ Set.mem_insert t _
      refine ⟨t.serial, htouch, .inl hserial.ge, fun now h => h.touch htouch (.inr rfl) ?_ ?_⟩
      · intro u hu heq
        obtain rfl := hsound'.serial_inj u hu t hmem heq
        exact ⟨false, Function.update_self .., fun hfalse => absurd hfalse Bool.false_ne_true⟩
      · exact fun r _ => ⟨⟨t, hmem, rfl⟩, hsound'.serial_lt t hmem⟩
  | cancelled t ht htimers hcreated =>
      have htouch : Touches t.serial s ⟨m', s.book.enter (.cancelled t)⟩ := by
        refine ⟨hsound', fun serial hne => Function.update_of_ne hne _ _, fun u hu => ?_,
          hcreated.ge⟩
        rw [htimers, Set.mem_sdiff, and_iff_left]
        rintro rfl
        exact hu rfl
      refine ⟨t.serial, htouch, .inr ⟨t, ht, rfl, hcancelled t rfl⟩,
        fun now h => h.touch htouch (.inr rfl) ?_ ?_⟩
      · intro u hu heq
        rw [htimers] at hu
        exact absurd heq (hsound.serial_ne ht u hu)
      · intro r hr
        have hnone : s.book.enter (.cancelled t) t.serial = none := Function.update_self ..
        exact absurd (hnone.symm.trans hr) (by simp)
  | modified t times ht htimers hcreated =>
      have htouch : Touches t.serial s ⟨m', s.book.enter (.modified t times)⟩ := by
        refine ⟨hsound', fun serial hne => Function.update_of_ne hne _ _, fun u hu => ?_,
          hcreated.ge⟩
        rw [htimers, Set.mem_insert_iff, or_iff_right, Set.mem_sdiff, and_iff_left]
        · rintro rfl
          exact hu rfl
        · rintro rfl
          exact hu rfl
      have hmem : { t with kind := times.kind } ∈ registered m'.timers :=
        htimers ▸ Set.mem_insert _ _
      refine ⟨t.serial, htouch, .inr ⟨t, ht, rfl, hmodified t times rfl⟩,
        fun now h => h.touch htouch (.inr rfl) ?_ ?_⟩
      · intro u hu heq
        obtain rfl := hsound'.serial_inj u hu _ hmem heq
        obtain ⟨expired, hrecord, hnow⟩ := h.held t ht
        refine ⟨expired && ! times.arms, ?_, fun hexpired => ?_⟩
        · exact (Function.update_self ..).trans (by rw [hrecord]; rfl)
        · exact hnow (Bool.and_eq_true_iff.mp hexpired).1
      · exact fun r _ => ⟨⟨_, hmem, rfl⟩, hsound'.serial_lt { t with kind := times.kind } hmem⟩

theorem Agree.call (s : PassState C D) (call : TimerCall C D) (h : Agree now s) :
    Agree now (passCall s call) := by
  obtain ⟨k, -, -, hagree⟩ := passCall_touches h.sound call
  exact hagree now h

theorem Lost.call (s : PassState C D) (call : TimerCall C D) (h : Lost s) :
    Lost (passCall s call) := by
  obtain ⟨k, htouch, hk, -⟩ := passCall_touches h.sound call
  exact h.touch htouch (hk.imp_right fun ⟨t, ht, hserial, _⟩ => ⟨t, ht, hserial⟩)

end Calls

section Callback

variable {s : PassState C D} {t : Timer C D} {event : Ready C D}

theorem mem_of_fires (h : s.mgr.fires event = some t) : t ∈ registered s.mgr.timers := by
  obtain ⟨hget, hfd⟩ := Option.filter_eq_some_iff.mp h
  simp only [decide_eq_true_eq] at hfd
  exact ⟨List.mem_of_getElem? hget, hfd.1⟩

theorem touches_ran (hsound : Sound s.mgr) (t : Timer C D) :
    Touches t.serial s { s with book := s.book.ran t } :=
  ⟨hsound, fun _ hne => Function.update_of_ne hne _ _, fun _ _ => Iff.rfl, Nat.le_refl _⟩

theorem Agree.callback (h : Agree none s) (ht : t ∈ registered s.mgr.timers)
    (calls : List (TimerCall C D)) : Agree (running t) (passCallback s t calls) := by
  rw [passCallback, if_pos (h.sound.callback t ht)]
  refine run_invariant Agree.call ?_ calls
  refine h.touch (touches_ran h.sound t) (.inl rfl) ?_ ?_
  · intro u hu heq
    obtain rfl := h.sound.serial_inj u hu t ht heq
    obtain ⟨expired, hrecord, hnow⟩ := h.held u hu
    refine ⟨expired || u.kind = .oneshot, ?_, fun hexpired => ?_⟩
    · exact (Function.update_self ..).trans (by rw [hrecord]; rfl)
    · rw [Bool.or_eq_true_iff] at hexpired
      obtain hexpired | hkind := hexpired
      · cases hnow hexpired
      · exact if_pos (of_decide_eq_true hkind)
  · exact fun r _ => ⟨⟨t, ht, rfl⟩, h.sound.serial_lt t ht⟩

theorem Lost.callback (h : Lost s) (ht : t ∈ registered s.mgr.timers)
    (calls : List (TimerCall C D)) : Lost (passCallback s t calls) := by
  rw [passCallback, if_pos (h.sound.callback t ht)]
  refine run_invariant Lost.call ?_ calls
  exact h.touch (touches_ran h.sound t) (.inr ⟨t, ht, rfl⟩)

/-- What the manager does with the descriptor of a one-shot timer. -/
theorem cancel_cases (hsound : Sound s.mgr) (fd : Int) :
    (∃ u ∈ registered s.mgr.timers, u.fd = fd ∧
      registered (nvTimerManagerCancel s.mgr fd).1.timers = registered s.mgr.timers \ {u} ∧
      (nvTimerManagerCancel s.mgr fd).1.created = s.mgr.created) ∨
    ((∀ u ∈ registered s.mgr.timers, u.fd ≠ fd) ∧
      registered (nvTimerManagerCancel s.mgr fd).1.timers = registered s.mgr.timers ∧
      s.mgr.created ≤ (nvTimerManagerCancel s.mgr fd).1.created) := by
  obtain ⟨hchanges, -⟩ := nvTimerManagerCancel_spec hsound.distinct fd
  cases hfind : findTimer s.mgr.timers fd with
  | none =>
      rw [hfind] at hchanges
      cases hchanges with
      | none htimers hcreated =>
          refine .inr ⟨?_, htimers, hcreated⟩
          rintro u hu rfl
          rw [findTimer_of_mem hsound.distinct hu] at hfind
          cases hfind
  | some u =>
      rw [hfind] at hchanges
      cases hchanges with
      | cancelled _ hu htimers hcreated =>
          exact .inl ⟨u, hu, (findTimer_some hfind).2, htimers, hcreated⟩

end Callback

section Result

variable {s : PassState C D} {t : Timer C D}

theorem Agree.expire (h : Agree (some (t.serial, t.fd)) s)
    (hexpired : ∀ u ∈ registered s.mgr.timers, u.fd = t.fd →
      u.serial = t.serial ∧ ∃ r, s.book t.serial = some r ∧ r.expired = true) :
    Agree none { s with mgr := (nvTimerManagerCancel s.mgr t.fd).1 } := by
  obtain ⟨u, hu, hfd, htimers, hcreated⟩ | ⟨hnone, htimers, hcreated⟩ :=
    cancel_cases h.sound t.fd
  · obtain ⟨hserial, r, hr, hrexpired⟩ := hexpired u hu hfd
    refine ⟨h.sound.cancel t.fd, ?_, ?_, ?_⟩
    · rw [htimers]
      intro v hv
      obtain ⟨expired, hrecord, hnow⟩ := h.held v hv.1
      refine ⟨expired, hrecord, fun hexpired => ?_⟩
      have hv' := congrArg Prod.fst (Option.some.inj (hnow hexpired))
      exact absurd (hv'.symm.trans hserial.symm) (h.sound.serial_ne hu v hv)
    · rw [htimers]
      intro serial r' hr'
      refine (h.kept serial r' hr').elim .inl ?_
      rintro ⟨v, hv, rfl⟩
      by_cases hvu : v = u
      · left
        rw [hvu, hserial, hr, Option.some.injEq] at hr'
        rwa [← hr']
      · exact .inr ⟨v, ⟨hv, hvu⟩, rfl⟩
    · rw [hcreated]
      exact h.below
  · refine ⟨h.sound.cancel t.fd, ?_, ?_, ?_⟩
    · rw [htimers]
      intro v hv
      obtain ⟨expired, hrecord, hnow⟩ := h.held v hv
      refine ⟨expired, hrecord, fun hexpired => ?_⟩
      have hv' := congrArg Prod.snd (Option.some.inj (hnow hexpired))
      exact absurd hv'.symm (hnone v hv)
    · rw [htimers]
      exact h.kept
    · exact fun serial r hr => Nat.lt_of_lt_of_le (h.below serial r hr) hcreated

/-- Cancelling the descriptor of a timer that has not expired. -/
theorem Agree.lose {u : Timer C D} (h : Agree (some (t.serial, t.fd)) s)
    (hu : u ∈ registered s.mgr.timers) (hfd : u.fd = t.fd)
    (hbad : ¬ (u.serial = t.serial ∧ ∃ r, s.book t.serial = some r ∧ r.expired = true)) :
    Lost { s with mgr := (nvTimerManagerCancel s.mgr t.fd).1 } := by
  obtain ⟨expired, hrecord, hnow⟩ := h.held u hu
  have hfalse : expired = false := by
    refine Bool.eq_false_iff.mpr fun hexpired => hbad ?_
    have hserial : t.serial = u.serial := congrArg Prod.fst (Option.some.inj (hnow hexpired))
    exact ⟨hserial.symm, u.record expired, hserial ▸ hrecord, hexpired⟩
  obtain ⟨w, hw, hwfd, htimers, hcreated⟩ | ⟨hnone, -⟩ := cancel_cases h.sound t.fd
  · obtain rfl := eq_of_fd_eq h.sound.distinct hw hu (hwfd.trans hfd.symm)
    refine ⟨h.sound.cancel t.fd, w.serial, w.record expired, hrecord, hfalse, ?_, ?_⟩
    · rw [hcreated]
      exact h.below w.serial _ hrecord
    · rw [htimers]
      exact h.sound.serial_ne hw
  · exact absurd hfd (hnone u hu)

theorem Lost.expire (h : Lost s) (fd : Int) :
    Lost { s with mgr := (nvTimerManagerCancel s.mgr fd).1 } := by
  obtain ⟨serial, r, hr, hexpired, hlt, hgone⟩ := h.lost
  obtain ⟨u, -, -, htimers, hcreated⟩ | ⟨-, htimers, hcreated⟩ := cancel_cases h.sound fd
  · refine ⟨h.sound.cancel fd, serial, r, hr, hexpired, hcreated ▸ hlt, ?_⟩
    rw [htimers]
    exact fun v hv => hgone v hv.1
  · refine ⟨h.sound.cancel fd, serial, r, hr, hexpired, Nat.lt_of_lt_of_le hlt hcreated, ?_⟩
    rw [htimers]
    exact hgone

/-- Step lemma: an event that cancels no timer but an expired one. -/
theorem Agree.passEvent (s : PassState C D) (event : Ready C D) (h : Agree none s)
    (hgood : CancelsExpired s event) : Agree none (passEvent s event) := by
  unfold TimerTask.passEvent
  cases hfires : s.mgr.fires event with
  | none => exact h
  | some t =>
      have hafter := h.callback (mem_of_fires hfires) event.calls
      dsimp only
      by_cases hkind : t.kind = .oneshot
      · rw [if_pos hkind]
        rw [running, if_pos hkind] at hafter
        exact hafter.expire (hgood t hfires hkind)
      · rw [running, if_neg hkind] at hafter
        rwa [if_neg hkind]

/-- Step lemma: an event that cancels another timer, or one that was armed again. -/
theorem Agree.passEvent_lost (s : PassState C D) (event : Ready C D) (h : Agree none s)
    (hbad : ¬ CancelsExpired s event) : Lost (TimerTask.passEvent s event) := by
  unfold CancelsExpired at hbad
  push Not at hbad
  obtain ⟨t, hfires, hkind, u, hu, hfd, hlost⟩ := hbad
  have hafter := h.callback (mem_of_fires hfires) event.calls
  rw [running, if_pos hkind] at hafter
  unfold TimerTask.passEvent
  simp only [hfires, if_pos hkind]
  refine hafter.lose hu hfd ?_
  rintro ⟨hserial, r, hr, hexpired⟩
  exact hlost hserial r hr hexpired

theorem Lost.passEvent (s : PassState C D) (event : Ready C D) (h : Lost s) :
    Lost (TimerTask.passEvent s event) := by
  unfold TimerTask.passEvent
  cases hfires : s.mgr.fires event with
  | none => exact h
  | some t =>
      have hafter := h.callback (mem_of_fires hfires) event.calls
      dsimp only
      split_ifs
      · exact hafter.expire t.fd
      · exact hafter

/--
For every manager in use, every batch of events and whatever the callbacks call:
after the pass the table holds the timers that were there or have been created,
and neither cancelled nor expired, with their own callback, data and kind, exactly
if each one-shot timer that the pass cancels is the one that has fired, not armed
again.
-/
theorem nvTimerManagerProcessOnce_keeps_iff
    (capacity : Nat)
    (others : List Nat)
    (as : List (ManagerAction C D))
    (events : List (Ready C D)) :
    let m := run managerStep (nvTimerManagerInit capacity others) as
    Keeps (nvTimerManagerProcessOnce m (.ready events)).1.timers
        (run passEvent (passStart m) events).book ↔
      Along passEvent CancelsExpired (passStart m) events := by
  intro m
  have hstart : Agree none (passStart m) := .start (sound_of_run capacity others as)
  have hmgr : (nvTimerManagerProcessOnce m (.ready events)).1 =
      (run passEvent (passStart m) events).mgr := (run_passEvent_mgr (passStart m) events).symm
  rw [hmgr]
  exact run_iff_along Agree.passEvent Agree.passEvent_lost Lost.passEvent (fun _ => Agree.keeps)
    (fun _ => Lost.not_keeps) hstart events

end Result

section Spared

variable {s : PassState C D} {t : Timer C D}

/-- The timer is in the table and has expired. -/
structure Expiring (t : Timer C D) (s : PassState C D) : Prop where
  sound : Sound s.mgr
  mem : t ∈ registered s.mgr.timers
  expired : ∃ r, s.book t.serial = some r ∧ r.expired = true

theorem Expiring.call (s : PassState C D) (call : TimerCall C D) (h : Expiring t s)
    (hspared : ¬ call.Names t.fd) : Expiring t (passCall s call) := by
  obtain ⟨k, htouch, hk, -⟩ := passCall_touches h.sound call
  have hne : t.serial ≠ k := by
    obtain hk | ⟨u, hu, rfl, hnames⟩ := hk
    · exact Nat.ne_of_lt (Nat.lt_of_lt_of_le (h.sound.serial_lt t h.mem) hk)
    · intro heq
      obtain rfl := h.sound.serial_inj t h.mem u hu heq
      exact hspared hnames
  refine ⟨htouch.sound, (htouch.timers t hne).mpr h.mem, ?_⟩
  rw [htouch.book t.serial hne]
  exact h.expired

theorem Expiring.ran (h : Agree none s) (ht : t ∈ registered s.mgr.timers)
    (hkind : t.kind = .oneshot) : Expiring t { s with book := s.book.ran t } := by
  obtain ⟨expired, hrecord, -⟩ := h.held t ht
  refine ⟨h.sound, ht, { t.record expired with expired := true }, ?_, rfl⟩
  refine (Function.update_self ..).trans ?_
  rw [hrecord]
  simp [Timer.record, hkind]

/-- The callback of each one-shot timer that fires leaves the timer's own descriptor alone. -/
def SparesOwn (s : PassState C D) (event : Ready C D) : Prop :=
  ∀ t, s.mgr.fires event = some t → t.kind = .oneshot → ∀ call ∈ event.calls, ¬ call.Names t.fd

theorem SparesOwn.cancelsExpired {event : Ready C D} (h : Agree none s)
    (hspares : SparesOwn s event) : CancelsExpired s event := by
  intro t hfires hkind
  have ht := mem_of_fires hfires
  have hafter : Expiring t (passCallback s t event.calls) := by
    rw [passCallback, if_pos (h.sound.callback t ht)]
    have halong : Along passCall (fun _ call => ¬ call.Names t.fd)
        { s with book := s.book.ran t } event.calls :=
      (along_iff_forall_mem _ _).mpr (hspares t hfires hkind)
    exact run_invariant_of_along Expiring.call (.ran h ht hkind) halong
  intro u hu hfd
  obtain rfl := eq_of_fd_eq hafter.sound.distinct hu hafter.mem hfd
  exact ⟨rfl, hafter.expired⟩

theorem nvTimerManagerProcessOnce_keeps_of_sparesOwn (capacity : Nat) (others : List Nat)
    (as : List (ManagerAction C D)) (events : List (Ready C D)) :
    let m := run managerStep (nvTimerManagerInit capacity others) as
    Along passEvent SparesOwn (passStart m) events →
      Keeps (nvTimerManagerProcessOnce m (.ready events)).1.timers
        (run passEvent (passStart m) events).book := by
  intro m hspares
  have hstart : Agree none (passStart m) := .start (sound_of_run capacity others as)
  have hmgr : (nvTimerManagerProcessOnce m (.ready events)).1 =
      (run passEvent (passStart m) events).mgr := (run_passEvent_mgr (passStart m) events).symm
  rw [hmgr]
  refine (run_invariant_of_along ?_ hstart hspares).keeps
  exact fun s event h hspares => h.passEvent s event (hspares.cancelsExpired h)

end Spared

/-- A table without timers keeps no timer that has not expired. -/
theorem not_keeps_of_fds_nil {timers : List (Timer C D)} {book : TimerBook C D} {serial : Nat}
    {r : TimerRecord C D} (hfds : fds timers = []) (hr : book serial = some r)
    (hexpired : r.expired = false) : ¬ Keeps timers book := by
  intro hkeeps
  have hthere := hkeeps serial r hr
  rw [hexpired] at hthere
  obtain ⟨t, ht, -⟩ := hthere
  have hfd : t.fd ∈ fds timers := mem_fds_iff.mpr ⟨t, ht, rfl⟩
  rw [hfds] at hfd
  exact List.not_mem_nil hfd

def inOneSecond : TimerTimes := ⟨1, 0, 0, 0⟩

/-- A manager with one timer, one-shot and with the descriptor 4. -/
def oneTimer : TimerManager Nat Nat :=
  run managerStep (nvTimerManagerInit 2 [0, 1, 2, 3])
    [.call (.create inOneSecond (some 7) none ⟨true, true, true⟩)]

/-- The timer fires and its callback makes the calls. -/
def fireOnce (calls : List (TimerCall Nat Nat)) : List (Ready Nat Nat) := [⟨0, true, calls⟩]

/-- The callback arms its timer for another second. -/
def rearm : List (Ready Nat Nat) := fireOnce [.modify 4 inOneSecond true]

/-- The callback cancels its timer and creates a periodic one. -/
def replace : List (Ready Nat Nat) :=
  fireOnce [.cancel 4, .create ⟨1, 0, 1, 0⟩ (some 8) none ⟨true, true, true⟩]

/-- The timer that was armed again is gone, and so is the one that was created. -/
theorem rearmed_and_new_timer_lost :
    (fds (nvTimerManagerProcessOnce oneTimer (.ready rearm)).1.timers = [] ∧
      ¬ Keeps (nvTimerManagerProcessOnce oneTimer (.ready rearm)).1.timers
        (run passEvent (passStart oneTimer) rearm).book) ∧
    (fds (nvTimerManagerProcessOnce oneTimer (.ready replace)).1.timers = [] ∧
      ¬ Keeps (nvTimerManagerProcessOnce oneTimer (.ready replace)).1.timers
        (run passEvent (passStart oneTimer) replace).book) := by
  have hrearm : fds (nvTimerManagerProcessOnce oneTimer (.ready rearm)).1.timers = [] := by decide
  have hreplace : fds (nvTimerManagerProcessOnce oneTimer (.ready replace)).1.timers = [] := by
    decide
  have hold : (run passEvent (passStart oneTimer) rearm).book 0 =
      some ⟨some 7, none, .oneshot, false⟩ := by decide
  have hnew : (run passEvent (passStart oneTimer) replace).book 1 =
      some ⟨some 8, none, .periodic, false⟩ := by decide
  exact ⟨⟨hrearm, not_keeps_of_fds_nil hrearm hold rfl⟩,
    ⟨hreplace, not_keeps_of_fds_nil hreplace hnew rfl⟩⟩

end Libnv.TimerTask
