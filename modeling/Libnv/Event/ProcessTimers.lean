import Libnv.Event.Loop

/-!
# One timer pass: re-arming from inside a handler

`docs/event_loop.md` prescribes periodic timers by calling
`nv_loop_add_timer` on the expired event from its own handler.  The pass of
`nv_loop_process_timers`, however, unlinks the event and clears `ev->loop`
after the handler returned.

Two walks over the list are followed here.  If no expired timer re-arms itself,
the pass removes exactly the expired timers and the list stays well formed
(`nvLoopProcessTimers_quiet`); `next_timeout` is then the earliest expiry, where
`0` stands for "no timer": the timers that remain are later than some clock value,
so none of them expires at `0`.  In general the pass still visits the original
members in order, and it leaves every expired one without its loop
(`processTimersLoop_walk`).  Together they say exactly when a pass keeps the
re-armed timers (`nvLoopProcessTimers_keeps_rearmed_iff`).
-/

namespace Libnv.Loop

universe u v w

open DoublyLinked

section ProcessTimers

variable {E : Type u} {L : Type v} {H : Type w} [DecidableEq E] (rearms : H → List UInt64)
variable (clock : Nat → UInt64)
variable {e : E} {fuel : Nat} {l rest : List E} {now : UInt64} {s s' : LoopState E L H}
variable {P : LoopState E L H → List E → Prop} {h h' : Heap E L H} {kept : List E}

/-- The timer is due at clock value `now`. -/
def Expired (now : UInt64) (s : LoopState E L H) (e : E) : Prop :=
  (s.ev e).expireTime ≤ now

instance (now : UInt64) (s : LoopState E L H) (e : E) :
    Decidable (Expired now s e) :=
  inferInstanceAs (Decidable ((s.ev e).expireTime ≤ now))

/-- The timer has a handler that re-arms it. -/
def Rearms (s : LoopState E L H) (e : E) : Prop :=
  ∃ f, (s.ev e).handler = some f ∧ rearms f ≠ []

/-- Everything the timer pass reads, up to counters and time stamps. -/
structure SameTimers (s s' : LoopState E L H) : Prop where
  self : s'.self = s.self
  head : s'.head = s.head
  next : ∀ x, (s'.ev x).next = (s.ev x).next
  prev : ∀ x, (s'.ev x).prev = (s.ev x).prev
  loop : ∀ x, (s'.ev x).loop = (s.ev x).loop
  expireTime : ∀ x, (s'.ev x).expireTime = (s.ev x).expireTime
  handler : ∀ x, (s'.ev x).handler = (s.ev x).handler

omit [DecidableEq E] in
theorem SameTimers.refl (s : LoopState E L H) : SameTimers s s := by
  constructor <;> simp

theorem recordTrigger_same (s : LoopState E L H) (e : E) (revents : Nat) :
    SameTimers s (recordTrigger clock s e revents) := by
  constructor <;>
    simp only [recordTrigger, nvLoopGetMonotonicTime, Heap.modify] <;>
    intro x <;> split <;> rfl

omit [DecidableEq E] in
theorem SameTimers.logTrigger (h : SameTimers s s') (e : E) (called : Option H) :
    SameTimers s (s'.logTrigger e called) :=
  ⟨h.self, h.head, h.next, h.prev, h.loop, h.expireTime, h.handler⟩

theorem nvEventTrigger_quiet (revents : Nat) (hquiet : ¬ Rearms rearms s e) :
    SameTimers s (nvEventTrigger rearms clock s e revents) := by
  have hrecord := recordTrigger_same clock s e revents
  unfold nvEventTrigger
  cases hf : (s.ev e).handler with
  | none => exact (SameTimers.refl s).logTrigger e none
  | some f =>
      have hnil : rearms f = [] := by
        by_contra hne
        exact hquiet ⟨f, hf, hne⟩
      dsimp only
      cases ((recordTrigger clock s e revents).ev e).loop with
      | none => exact hrecord.logTrigger e none
      | some _ =>
          simp only [hnil, List.foldl_nil]
          exact hrecord.logTrigger e (some f)

/-- The handler that `nv_event_trigger` calls. -/
def triggeredHandler (s : LoopState E L H) (e : E) : Option H :=
  if (s.ev e).loop.isSome then (s.ev e).handler else none

/-- Re-arming calls neither count timers nor trigger any. -/
theorem foldl_nvLoopAddTimer_frame (calls : List UInt64) (s : LoopState E L H) (e : E) :
    let s' := calls.foldl (fun s ms => nvLoopAddTimer clock s e ms) s
    s'.timersProcessed = s.timersProcessed ∧ s'.triggers = s.triggers := by
  induction calls generalizing s with
  | nil => exact ⟨rfl, rfl⟩
  | cons ms calls ih => exact ih (nvLoopAddTimer clock s e ms)

/-- The call is kept with the handler, and the count of timers is not touched. -/
theorem nvEventTrigger_frame (s : LoopState E L H) (e : E) (revents : Nat) :
    let s' := nvEventTrigger rearms clock s e revents
    s'.timersProcessed = s.timersProcessed ∧
      s'.triggers = s.triggers ++ [(e, triggeredHandler s e)] := by
  have hloop : ((recordTrigger clock s e revents).ev e).loop = (s.ev e).loop :=
    (recordTrigger_same clock s e revents).loop e
  unfold nvEventTrigger triggeredHandler
  cases (s.ev e).handler with
  | none => exact ⟨rfl, by simp [LoopState.logTrigger]⟩
  | some f =>
      dsimp only
      rw [hloop]
      cases (s.ev e).loop with
      | none => exact ⟨rfl, rfl⟩
      | some _ => exact foldl_nvLoopAddTimer_frame clock _ _ e

theorem processTimer_pending (hpend : ¬ Expired now s e) :
    processTimer rearms clock now s e = s := by
  unfold Expired at hpend
  simp [processTimer, hpend]

theorem processTimer_expired (hexp : Expired now s e) :
    processTimer rearms clock now s e =
      let t := nvEventTrigger rearms clock s e nvEventTimer
      { t with
        timersProcessed := t.timersProcessed + 1
        ev :=
          (nvLoopRemoveEventFromList t.ev t.head e).1.modify e
            fun x => { x with loop := none }
        head := (nvLoopRemoveEventFromList t.ev t.head e).2 } := by
  unfold Expired at hexp
  simp [processTimer, hexp]

/-- What a pass does to an expired timer that is not re-armed. -/
structure Fired (s s' : LoopState E L H) (e : E) : Prop where
  self : s'.self = s.self
  next : s'.ev.next = unlinkNext s.ev.next s.ev.prev e
  prev : s'.ev.prev = unlinkPrev s.ev.next s.ev.prev e
  head : s'.head = if s.ev.prev e = none then s.ev.next e else s.head
  loop : ∀ x, x ≠ e → (s'.ev x).loop = (s.ev x).loop
  expireTime : ∀ x, (s'.ev x).expireTime = (s.ev x).expireTime
  handler : ∀ x, (s'.ev x).handler = (s.ev x).handler
  timersProcessed : s'.timersProcessed = s.timersProcessed + 1
  triggers : s'.triggers = s.triggers ++ [(e, triggeredHandler s e)]

theorem processTimer_fired (hexp : Expired now s e) (hquiet : ¬ Rearms rearms s e) :
    Fired s (processTimer rearms clock now s e) e := by
  rw [processTimer_expired rearms clock hexp]
  have hsame := nvEventTrigger_quiet rearms clock nvEventTimer hquiet
  obtain ⟨hcount, htriggers⟩ := nvEventTrigger_frame rearms clock s e nvEventTimer
  set t := nvEventTrigger rearms clock s e nvEventTimer with ht
  have hnext : t.ev.next = s.ev.next := funext hsame.next
  have hprev : t.ev.prev = s.ev.prev := funext hsame.prev
  constructor
  · exact hsame.self
  · -- the reset of `loop` leaves the links alone
    rw [← hnext, ← hprev, ← nvLoopRemoveEventFromList_next t.ev t.head]
    apply Heap.modify_next
    exact fun _ => rfl
  · rw [← hnext, ← hprev, ← nvLoopRemoveEventFromList_prev t.ev t.head]
    apply Heap.modify_prev
    exact fun _ => rfl
  · simp only [nvLoopRemoveEventFromList_head, hsame.head, hsame.prev, hsame.next]
    rfl
  · intro x hxe
    simp [Heap.modify, nvLoopRemoveEventFromList_apply, hxe, hsame.loop]
  · intro x
    by_cases hxe : x = e <;>
      simp [Heap.modify, nvLoopRemoveEventFromList_apply, hxe, hsame.expireTime]
  · intro x
    by_cases hxe : x = e <;>
      simp [Heap.modify, nvLoopRemoveEventFromList_apply, hxe, hsame.handler]
  · exact congrArg (· + 1) hcount
  · exact htriggers

theorem Fired.linked (hf : Fired s s' e) (hnodup : (kept ++ e :: rest).Nodup)
    (hl : Linked s.ev.next s.ev.prev s.head (kept ++ e :: rest)) :
    Linked s'.ev.next s'.ev.prev s'.head (kept ++ rest) := by
  have hprev : s.ev.prev e = kept.getLast? := (linked_member hl).1
  rw [hf.next, hf.prev, hf.head, hprev]
  simpa using linked_unlink hnodup hl

theorem Fired.wellFormed (hf : Fired s s' e) (hwf : WellFormed s (kept ++ e :: rest)) :
    WellFormed s' (kept ++ rest) := by
  obtain ⟨hnotin, hnodup⟩ := List.nodup_cons.mp (List.nodup_middle.mp hwf.nodup)
  refine ⟨hnodup, hf.linked hwf.nodup hwf.linked, ?_⟩
  intro x hx
  have hxe : x ≠ e := fun h => hnotin (h ▸ hx)
  have hmem : x ∈ kept ++ e :: rest :=
    ((List.sublist_cons_self e rest).append_left kept).subset hx
  rw [hf.loop x hxe, hf.self]
  exact hwf.owned x hmem

omit [DecidableEq E] in
/-- The list only depends on the loop itself, the events and the head. -/
theorem WellFormed.congr (hwf : WellFormed s l)
    (hself : s'.self = s.self) (hev : s'.ev = s.ev) (hhead : s'.head = s.head) :
    WellFormed s' l := by
  obtain ⟨hnodup, hlinked, howned⟩ := hwf
  refine ⟨hnodup, ?_, ?_⟩
  · rw [hev, hhead]
    exact hlinked
  · rw [hself, hev]
    exact howned

/-- What a pass over `rest` without re-arming leaves as it was, counts and calls. -/
structure PassedOver (now : UInt64) (s s' : LoopState E L H) (rest : List E) : Prop where
  expireTime : ∀ x, (s'.ev x).expireTime = (s.ev x).expireTime
  handler : ∀ x, (s'.ev x).handler = (s.ev x).handler
  timersProcessed : s'.timersProcessed =
    s.timersProcessed + UInt64.ofNat (rest.filter fun e => Expired now s e).length
  triggers : s'.triggers = s.triggers ++
    (rest.filter fun e => Expired now s e).map fun e => (e, triggeredHandler s e)

/--
Run lemma without re-arming: the pass over the remaining members keeps those
that are not due, in order.  `P` is any property of a loop and its list that
survives the firing of a member.
-/
theorem processTimersLoop_quiet
    (hlinked : ∀ s l, P s l → l.Nodup ∧ Linked s.ev.next s.ev.prev s.head l)
    (hfired : ∀ s s' kept e rest, P s (kept ++ e :: rest) → Fired s s' e → P s' (kept ++ rest))
    (now : UInt64) (rest kept : List E) (hfuel : rest.length ≤ fuel) (hP : P s (kept ++ rest))
    (hquiet : ∀ e ∈ rest, Expired now s e → ¬ Rearms rearms s e) :
    ∃ s', processTimersLoop rearms clock now fuel rest.head? s = some s' ∧
      P s' (kept ++ rest.filter fun e => ¬ Expired now s e) ∧
      PassedOver now s s' rest := by
  induction rest generalizing kept s fuel with
  | nil =>
      refine ⟨s, by cases fuel <;> rfl, by simpa using hP, fun _ => rfl, fun _ => rfl, ?_, ?_⟩
      · simp
      · simp
  | cons e rest ih =>
      obtain ⟨fuel, rfl⟩ : ∃ k, fuel = k + 1 :=
        ⟨fuel - 1, by simp at hfuel; omega⟩
      have hlen : rest.length ≤ fuel := by simpa using hfuel
      obtain ⟨hnodup, hl⟩ := hlinked s _ hP
      have hnext : (s.ev e).next = rest.head? := (linked_member hl).2
      have hnotin : e ∉ rest := by
        rw [List.nodup_append, List.nodup_cons] at hnodup
        exact hnodup.2.1.1
      simp only [List.head?_cons, processTimersLoop, hnext]
      by_cases hexp : Expired now s e
      · have hf := processTimer_fired rearms clock hexp (hquiet e (by simp) hexp)
        set t := processTimer rearms clock now s e with ht
        have hsameExp : ∀ x, Expired now t x ↔ Expired now s x := by
          intro x
          simp [Expired, hf.expireTime]
        have hsameTrigger : ∀ x ∈ rest, triggeredHandler t x = triggeredHandler s x := by
          intro x hx
          have hxe : x ≠ e := fun h => hnotin (h ▸ hx)
          rw [triggeredHandler, triggeredHandler, hf.loop x hxe, hf.handler]
        obtain ⟨s', hrun, hs', hpass⟩ := ih kept hlen (hfired s t kept e rest hP hf) (by
          intro x hx hx'
          have hq := hquiet x (by simp [hx]) ((hsameExp x).mp hx')
          simpa [Rearms, hf.handler] using hq)
        simp only [hsameExp] at hs'
        refine ⟨s', hrun, by simpa [hexp] using hs', ?_, ?_, ?_, ?_⟩
        · exact fun x => (hpass.expireTime x).trans (hf.expireTime x)
        · exact fun x => (hpass.handler x).trans (hf.handler x)
        · rw [hpass.timersProcessed, hf.timersProcessed]
          simp only [hsameExp]
          rw [List.filter_cons_of_pos (by simpa using hexp), List.length_cons,
            UInt64.ofNat_add, UInt64.add_assoc, UInt64.add_comm 1]
          rfl
        · rw [hpass.triggers, hf.triggers]
          simp only [hsameExp]
          rw [List.filter_cons_of_pos (by simpa using hexp), List.map_cons, List.append_assoc,
            List.singleton_append]
          congr 2
          refine List.map_congr_left fun x hx => ?_
          rw [hsameTrigger x (List.mem_of_mem_filter hx)]
      · rw [processTimer_pending rearms clock hexp]
        obtain ⟨s', hrun, hs', hpass⟩ := ih (kept ++ [e]) hlen (by simpa using hP)
          (fun x hx => hquiet x (by simp [hx]))
        refine ⟨s', hrun, by simpa [hexp] using hs', hpass.expireTime, hpass.handler, ?_, ?_⟩
        · rw [hpass.timersProcessed, List.filter_cons_of_neg (by simpa using hexp)]
        · rw [hpass.triggers, List.filter_cons_of_neg (by simpa using hexp)]

omit [DecidableEq E] in
theorem updateNextTimeout_frame {cur : Option E} (hrun : updateNextTimeout fuel cur s = some s') :
    s'.self = s.self ∧ s'.ev = s.ev ∧ s'.head = s.head := by
  induction fuel generalizing cur s with
  | zero =>
      cases cur with
      | none =>
          simp only [updateNextTimeout, Option.some.injEq] at hrun
          subst hrun
          exact ⟨rfl, rfl, rfl⟩
      | some e => simp [updateNextTimeout] at hrun
  | succ fuel ih =>
      cases cur with
      | none =>
          simp only [updateNextTimeout, Option.some.injEq] at hrun
          subst hrun
          exact ⟨rfl, rfl, rfl⟩
      | some e =>
          rw [updateNextTimeout] at hrun
          have hrest := ih hrun
          exact hrest

/-- `t` is the least of the times, or `0` if there are none. -/
def Earliest (times : List UInt64) (t : UInt64) : Prop :=
  (times = [] ∧ t = 0) ∨ (t ∈ times ∧ ∀ x ∈ times, t ≤ x)

/-- One round of the second loop. -/
theorem Earliest.update {times : List UInt64} {t x : UInt64}
    (h : Earliest times t) (hzero : 0 ∉ times) :
    Earliest (times ++ [x]) (if t = 0 ∨ x < t then x else t) := by
  rcases h with ⟨rfl, rfl⟩ | ⟨hmem, hle⟩
  · right
    simp
  · have ht : t ≠ 0 := fun h0 => hzero (h0 ▸ hmem)
    right
    by_cases hx : x < t
    · rw [if_pos (Or.inr hx)]
      refine ⟨by simp, fun y hy => ?_⟩
      rcases List.mem_append.mp hy with hy | hy
      · exact UInt64.le_of_lt (UInt64.lt_of_lt_of_le hx (hle y hy))
      · rw [List.mem_singleton.mp hy]
        exact UInt64.le_refl x
    · rw [if_neg (by simp [ht, hx])]
      refine ⟨List.mem_append_left _ hmem, fun y hy => ?_⟩
      rcases List.mem_append.mp hy with hy | hy
      · exact hle y hy
      · rw [List.mem_singleton.mp hy]
        exact UInt64.not_lt.mp hx

omit [DecidableEq E] in
/-- The second loop finds the least expiry, as long as none is `0`. -/
theorem updateNextTimeout_earliest (rest kept : List E)
    (hfuel : rest.length ≤ fuel) (hlinked : Linked s.ev.next s.ev.prev s.head (kept ++ rest))
    (hzero : ∀ e ∈ kept ++ rest, (s.ev e).expireTime ≠ 0)
    (hmin : Earliest (kept.map fun e => (s.ev e).expireTime) s.nextTimeout) :
    ∃ t, updateNextTimeout fuel rest.head? s = some { s with nextTimeout := t } ∧
      Earliest ((kept ++ rest).map fun e => (s.ev e).expireTime) t := by
  induction rest generalizing kept s fuel with
  | nil =>
      refine ⟨s.nextTimeout, by cases fuel <;> rfl, ?_⟩
      rw [List.append_nil]
      exact hmin
  | cons e rest ih =>
      obtain ⟨fuel, rfl⟩ : ∃ k, fuel = k + 1 :=
        ⟨fuel - 1, by simp only [List.length_cons] at hfuel; omega⟩
      have hlen : rest.length ≤ fuel := by simpa using hfuel
      have hnext : (s.ev e).next = rest.head? := (linked_member hlinked).2
      have hsplit : kept ++ e :: rest = kept ++ [e] ++ rest := by simp
      have hvisited : 0 ∉ kept.map fun e => (s.ev e).expireTime := by
        intro hmem
        obtain ⟨x, hx, hx0⟩ := List.mem_map.mp hmem
        exact hzero x (List.mem_append_left _ hx) hx0
      have hstep := hmin.update (x := (s.ev e).expireTime) hvisited
      rw [← List.map_singleton (f := fun e => (s.ev e).expireTime), ← List.map_append] at hstep
      rw [hsplit] at hlinked hzero ⊢
      simp only [List.head?_cons, updateNextTimeout, hnext]
      exact ih (kept ++ [e]) (s := { s with nextTimeout := _ }) hlen hlinked hzero hstep

omit [DecidableEq E] in
theorem expireTime_ne_zero (hpend : ¬ Expired now s e) : (s.ev e).expireTime ≠ 0 := by
  intro hzero
  rw [Expired, hzero] at hpend
  exact hpend (UInt64.le_iff_toNat_le.mpr (Nat.zero_le _))

/--
A pass without re-arming, for any property `P` of a loop and its list that survives
the firing of a member and only depends on the loop itself, the events and the head.
-/
theorem nvLoopProcessTimers_quiet
    (hlinked : ∀ s l, P s l → l.Nodup ∧ Linked s.ev.next s.ev.prev s.head l)
    (hfired : ∀ s s' kept e rest, P s (kept ++ e :: rest) → Fired s s' e → P s' (kept ++ rest))
    (hcongr : ∀ s s' l, s'.self = s.self → s'.ev = s.ev → s'.head = s.head → P s l → P s' l)
    (hP : P s l) (hquiet : ∀ e ∈ l, Expired (clock s.clockReads) s e → ¬ Rearms rearms s e)
    (hfuel : l.length ≤ fuel) :
    ∃ s', nvLoopProcessTimers rearms clock fuel s = some s' ∧
      P s' (l.filter fun e => ¬ Expired (clock s.clockReads) s e) ∧
      PassedOver (clock s.clockReads) s s' l ∧
      Earliest ((l.filter fun e => ¬ Expired (clock s.clockReads) s e).map
        fun e => (s.ev e).expireTime) s'.nextTimeout := by
  set now := clock s.clockReads with hnow
  set s₀ : LoopState E L H := { s with clockReads := s.clockReads + 1 } with hs₀
  have hP₀ : P s₀ ([] ++ l) := hcongr s s₀ l rfl rfl rfl hP
  have hhead : s₀.head = l.head? := linked_head (hlinked s₀ l hP₀).2
  obtain ⟨s₁, hrun₁, hP₁, hpass⟩ :=
    processTimersLoop_quiet rearms clock hlinked hfired now l [] hfuel hP₀ hquiet
  set remaining := l.filter fun e => ¬ Expired now s e with hremaining
  have hP₂ : P { s₁ with nextTimeout := 0 } remaining := hcongr s₁ _ _ rfl rfl rfl hP₁
  have hlen : remaining.length ≤ fuel := Nat.le_trans (List.length_filter_le _ _) hfuel
  have hzero : ∀ e ∈ [] ++ remaining, (s₁.ev e).expireTime ≠ 0 := by
    intro e he
    have hpend : ¬ Expired now s e := by simpa using (List.mem_filter.mp he).2
    rw [hpass.expireTime e]
    exact expireTime_ne_zero hpend
  obtain ⟨t, hrun₂, hmin⟩ :=
    updateNextTimeout_earliest remaining [] (s := { s₁ with nextTimeout := 0 }) hlen
      (hlinked _ _ hP₂).2 hzero (Or.inl ⟨rfl, rfl⟩)
  refine ⟨{ s₁ with nextTimeout := t }, ?_, hcongr s₁ _ _ rfl rfl rfl hP₁, ?_, ?_⟩
  · have hhead₁ : s₁.head = remaining.head? := linked_head (hlinked _ _ hP₂).2
    rw [← hhead] at hrun₁
    rw [← hhead₁] at hrun₂
    exact Option.bind_eq_some_iff.mpr ⟨s₁, hrun₁, hrun₂⟩
  · exact ⟨hpass.expireTime, hpass.handler, hpass.timersProcessed, hpass.triggers⟩
  · simpa only [List.nil_append, hpass.expireTime] using hmin

/-- Following `next` through the members still to be visited. -/
def NextChain (h : Heap E L H) : List E → Prop
  | [] => True
  | e :: rest => (h e).next = rest.head? ∧ NextChain h rest

/-- No member still to be visited has a later one as its `prev`. -/
def BackSafe (h : Heap E L H) : List E → Prop
  | [] => True
  | e :: rest =>
      (∀ x ∈ rest, (h e).prev ≠ some x) ∧ BackSafe h rest

/--
The state of the pass before it visits `rest`.  The part of the list already
visited may be damaged; what lies ahead is still the original list.
-/
structure Walk (s : LoopState E L H) (rest : List E) : Prop where
  nodup : rest.Nodup
  chain : NextChain s.ev rest
  back : BackSafe s.ev rest
  head : ∀ x ∈ rest.tail, s.head ≠ some x

omit [DecidableEq E] in
theorem nextChain_congr
    (hnext : ∀ x ∈ rest, (h' x).next = (h x).next) (hc : NextChain h rest) : NextChain h' rest := by
  induction rest with
  | nil => trivial
  | cons e rest ih =>
      refine ⟨?_, ih (fun x hx => hnext x (by simp [hx])) hc.2⟩
      rw [hnext e (by simp), hc.1]

omit [DecidableEq E] in
theorem backSafe_of_redirect
    (hprev : ∀ x ∈ rest,
      (h' x).prev = (h x).prev ∨ ∀ y ∈ rest, (h' x).prev ≠ some y)
    (hb : BackSafe h rest) : BackSafe h' rest := by
  induction rest with
  | nil => trivial
  | cons e rest ih =>
      refine ⟨?_, ih ?_ hb.2⟩
      · intro x hx
        rcases hprev e (by simp) with heq | hout
        · rw [heq]
          exact hb.1 x hx
        · exact hout x (by simp [hx])
      · intro x hx
        rcases hprev x (by simp [hx]) with heq | hout
        · exact Or.inl heq
        · exact Or.inr fun y hy => hout y (by simp [hy])

omit [DecidableEq E] in
theorem walk_of_linked (kept rest : List E) (hnodup : (kept ++ rest).Nodup)
    (hlinked : Linked s.ev.next s.ev.prev s.head (kept ++ rest)) :
    NextChain s.ev rest ∧ BackSafe s.ev rest := by
  induction rest generalizing kept with
  | nil => exact ⟨trivial, trivial⟩
  | cons e rest ih =>
      obtain ⟨hprev, hnext⟩ := linked_member hlinked
      obtain ⟨hchain, hback⟩ :=
        ih (kept ++ [e]) (by simpa using hnodup) (by simpa using hlinked)
      refine ⟨⟨hnext, hchain⟩, ?_, hback⟩
      intro x hx heq
      have hmem : x ∈ kept := by
        have hp : s.ev.prev e = some x := heq
        rw [hprev] at hp
        exact List.mem_of_getLast? hp
      rw [List.nodup_append] at hnodup
      exact hnodup.2.2 x hmem x (by simp [hx]) rfl

omit [DecidableEq E] in
theorem walk_of_wellFormed (hwf : WellFormed s l) : Walk s l := by
  obtain ⟨hchain, hback⟩ := walk_of_linked [] l hwf.nodup hwf.linked
  refine ⟨hwf.nodup, hchain, hback, ?_⟩
  intro x hx heq
  rw [linked_head hwf.linked] at heq
  cases l with
  | nil => simp at hx
  | cons y ys =>
      obtain rfl : y = x := by simpa using heq
      exact (List.nodup_cons.mp hwf.nodup).1 hx

/--
What running a handler may have done by the time it returns: whatever it wrote
lies outside `rest`, and the links of its own event do not lead into `rest`
beyond its first member.
-/
structure Triggered
    (s s' : LoopState E L H) (e : E) (rest : List E) : Prop where
  self : s'.self = s.self
  ahead : ∀ x ∈ rest, s'.ev x = s.ev x
  head : ∀ x ∈ rest, s'.head ≠ some x
  prev : ∀ x ∈ rest, (s'.ev e).prev ≠ some x
  next : ∀ x ∈ rest.tail, (s'.ev e).next ≠ some x
  loop : ∀ x, x ≠ e → (s'.ev x).loop = (s.ev x).loop

theorem nvLoopAddTimer_triggered {t : LoopState E L H} (ms : UInt64)
    (hfresh : e ∉ rest) (ht : Triggered s t e rest) :
    Triggered s (nvLoopAddTimer clock t e ms) e rest := by
  have hne : ∀ x ∈ rest, x ≠ e := fun x hx h => hfresh (h ▸ hx)
  constructor
  · exact ht.self
  · intro x hx
    have hhead := ht.head x hx
    simp [nvLoopAddTimer_apply, hne x hx, hhead, ht.ahead x hx]
  · intro x hx
    simp only [nvLoopAddTimer, nvLoopGetMonotonicTime, nvLoopAddEventToList_head,
      ne_eq, Option.some.injEq]
    exact Ne.symm (hne x hx)
  · intro x hx
    simp only [nvLoopAddTimer_apply, if_true]
    split
    · simpa using Ne.symm (hne x hx)
    · simp
  · intro x hx
    simpa [nvLoopAddTimer_apply] using ht.head x (List.mem_of_mem_tail hx)
  · intro x hx
    simp [nvLoopAddTimer_apply, hx, ht.loop x hx]

omit [DecidableEq E] in
theorem Triggered.logTrigger (h : Triggered s s' e rest) (called : Option H) :
    Triggered s (s'.logTrigger e called) e rest :=
  ⟨h.self, h.ahead, h.head, h.prev, h.next, h.loop⟩

theorem nvEventTrigger_triggered (revents : Nat) (hfresh : e ∉ rest) (hs : Triggered s s e rest) :
    Triggered s (nvEventTrigger rearms clock s e revents) e rest := by
  have hrecord : Triggered s (recordTrigger clock s e revents) e rest := by
    have hsame := recordTrigger_same clock s e revents
    refine ⟨hsame.self, ?_, ?_, ?_, ?_, fun x _ => hsame.loop x⟩
    · intro x hx
      have hxe : x ≠ e := fun h => hfresh (h ▸ hx)
      simp [recordTrigger, nvLoopGetMonotonicTime, Heap.modify, hxe]
    · simpa [hsame.head] using hs.head
    · simpa [hsame.prev] using hs.prev
    · simpa [hsame.next] using hs.next
  unfold nvEventTrigger
  cases (s.ev e).handler with
  | none => exact hs.logTrigger none
  | some f =>
      dsimp only
      cases ((recordTrigger clock s e revents).ev e).loop with
      | none => exact hrecord.logTrigger none
      | some _ =>
          dsimp only
          -- induction over the handler's re-arming calls
          replace hrecord := hrecord.logTrigger (some f)
          generalize (recordTrigger clock s e revents).logTrigger e (some f) = t at hrecord
          induction rearms f generalizing t with
          | nil => exact hrecord
          | cons ms calls ih =>
              exact ih _ (nvLoopAddTimer_triggered clock ms hfresh hrecord)

/-- Step lemma: one visit leaves the rest of the walk intact. -/
theorem processTimer_walk (now : UInt64) (hw : Walk s (e :: rest)) :
    let s' := processTimer rearms clock now s e
    Walk s' rest ∧ s'.self = s.self ∧
      (∀ x ∈ rest, (s'.ev x).expireTime = (s.ev x).expireTime) ∧
      (∀ x, x ≠ e → (s'.ev x).loop = (s.ev x).loop) ∧
      (Expired now s e → (s'.ev e).loop = none) := by
  obtain ⟨hfresh, hnodup⟩ := List.nodup_cons.mp hw.nodup
  obtain ⟨hnext, hchain⟩ := hw.chain
  obtain ⟨hprev, hback⟩ := hw.back
  have hheadTail : ∀ x ∈ rest.tail, s.head ≠ some x :=
    fun x hx => hw.head x (List.mem_of_mem_tail hx)
  by_cases hexp : Expired now s e
  · have hstart : Triggered s s e rest := by
      refine ⟨rfl, fun x _ => rfl, hw.head, hprev, ?_, fun x _ => rfl⟩
      intro x hx heq
      rw [hnext] at heq
      cases rest with
      | nil => simp at hx
      | cons y ys =>
          obtain rfl : y = x := by simpa using heq
          exact (List.nodup_cons.mp hnodup).1 hx
    rw [processTimer_expired rearms clock hexp]
    have ht := nvEventTrigger_triggered rearms clock nvEventTimer hfresh hstart
    generalize nvEventTrigger rearms clock s e nvEventTimer = t at ht
    have hne : ∀ x ∈ rest, x ≠ e := fun x hx h => hfresh (h ▸ hx)
    refine ⟨⟨hnodup, ?_, ?_, ?_⟩, ht.self, ?_, ?_, ?_⟩
    · refine nextChain_congr ?_ hchain
      intro x hx
      simp [Heap.modify, nvLoopRemoveEventFromList_apply, hne x hx, ht.prev x hx,
        ht.ahead x hx]
    · refine backSafe_of_redirect ?_ hback
      intro x hx
      by_cases hsucc : (t.ev e).next = some x
      · right
        simpa [Heap.modify, nvLoopRemoveEventFromList_apply, hne x hx, hsucc]
          using ht.prev
      · left
        simp [Heap.modify, nvLoopRemoveEventFromList_apply, hne x hx, hsucc,
          ht.ahead x hx]
    · intro x hx
      simp only [nvLoopRemoveEventFromList_head]
      split
      · exact ht.next x hx
      · exact ht.head x (List.mem_of_mem_tail hx)
    · intro x hx
      simp [Heap.modify, nvLoopRemoveEventFromList_apply, hne x hx, ht.ahead x hx]
    · intro x hx
      simp [Heap.modify, nvLoopRemoveEventFromList_apply, hx, ht.loop x hx]
    · intro _
      simp [Heap.modify]
  · rw [processTimer_pending rearms clock hexp]
    exact ⟨⟨hnodup, hchain, hback, hheadTail⟩, rfl, fun x _ => rfl,
      fun x _ => rfl, fun h => absurd h hexp⟩

/-- Run lemma: a pass leaves every expired member without its loop. -/
theorem processTimersLoop_walk
    (hw : Walk s rest) (hrun : processTimersLoop rearms clock now fuel rest.head? s = some s') :
    s'.self = s.self ∧
      (∀ x, x ∉ rest → (s'.ev x).loop = (s.ev x).loop) ∧
      (∀ x ∈ rest, Expired now s x → (s'.ev x).loop = none) := by
  induction rest generalizing s fuel with
  | nil =>
      have : s' = s := by
        cases fuel <;> simpa [processTimersLoop, eq_comm] using hrun
      subst this
      exact ⟨rfl, fun x _ => rfl, by simp⟩
  | cons e rest ih =>
      cases fuel with
      | zero => simp [processTimersLoop] at hrun
      | succ fuel =>
          rw [List.head?_cons, processTimersLoop, hw.chain.1] at hrun
          obtain ⟨hw', hself, hexpire, hloop, hgone⟩ :=
            processTimer_walk rearms clock now hw
          obtain ⟨hself', hframe, hdead⟩ := ih hw' hrun
          have hfresh := (List.nodup_cons.mp hw.nodup).1
          refine ⟨hself'.trans hself, ?_, ?_⟩
          · intro x hx
            rw [List.mem_cons, not_or] at hx
            rw [hframe x hx.2, hloop x hx.1]
          · intro x hx hexp
            rcases List.mem_cons.mp hx with rfl | hx
            · rw [hframe x hfresh]
              exact hgone hexp
            · refine hdead x hx ?_
              unfold Expired
              rw [hexpire x hx]
              exact hexp

/--
What the documentation promises of a pass over the members `l`: it ends, and
afterwards the list is well formed and holds exactly the timers that were not
due together with those that their handlers re-armed.
-/
def PassKeepsRearmed (s : LoopState E L H) (l : List E) : Prop :=
  ∃ fuel s', nvLoopProcessTimers rearms clock fuel s = some s' ∧
    s'.self = s.self ∧
    ∃ l', WellFormed s' l' ∧
      ∀ e, e ∈ l' ↔
        e ∈ l ∧ (¬ Expired (clock s.clockReads) s e ∨ Rearms rearms s e)

/-- Without re-arming, a pass does what is promised. -/
theorem passKeepsRearmed_of_quiet (hwf : WellFormed s l)
    (hquiet : ∀ e ∈ l, Expired (clock s.clockReads) s e → ¬ Rearms rearms s e) :
    PassKeepsRearmed rearms clock s l := by
  obtain ⟨s', hrun, ⟨hwf', hself⟩, -, -⟩ :=
    nvLoopProcessTimers_quiet rearms clock (P := fun t l => WellFormed t l ∧ t.self = s.self)
      (fun _ _ h => ⟨h.1.nodup, h.1.linked⟩)
      (fun _ _ _ _ _ h hf => ⟨hf.wellFormed h.1, hf.self.trans h.2⟩)
      (fun _ _ _ hself hev hhead h => ⟨h.1.congr hself hev hhead, hself.trans h.2⟩)
      ⟨hwf, rfl⟩ hquiet (Nat.le_refl _)
  refine ⟨l.length, s', hrun, hself, _, hwf', ?_⟩
  intro e
  simp only [List.mem_filter, decide_not, Bool.not_eq_eq_eq_not, Bool.not_true,
    decide_eq_false_iff_not]
  constructor
  · rintro ⟨hmem, hpend⟩
    exact ⟨hmem, Or.inl hpend⟩
  · rintro ⟨hmem, hpend | hre⟩
    · exact ⟨hmem, hpend⟩
    · exact ⟨hmem, fun hexp => hquiet e hmem hexp hre⟩

/-- A pass that does what is promised met no re-arming handler. -/
theorem quiet_of_passKeepsRearmed (hwf : WellFormed s l)
    (hkeeps : PassKeepsRearmed rearms clock s l) :
    ∀ e ∈ l, Expired (clock s.clockReads) s e → ¬ Rearms rearms s e := by
  intro e he hexp hre
  obtain ⟨fuel, s₂, hrun, hself, l', hwf', hmem⟩ := hkeeps
  set s₀ : LoopState E L H := { s with clockReads := s.clockReads + 1 } with hs₀
  have hwf₀ : WellFormed s₀ l := ⟨hwf.nodup, hwf.linked, hwf.owned⟩
  obtain ⟨s₁, hrun₁, hrun₂⟩ := Option.bind_eq_some_iff.mp hrun
  have hhead : s₀.head = l.head? := linked_head hwf.linked
  have hwalk :
      processTimersLoop rearms clock (clock s.clockReads) fuel l.head? s₀ =
        some s₁ := by
    rw [← hhead]
    exact hrun₁
  obtain ⟨-, -, hdead⟩ :=
    processTimersLoop_walk rearms clock (walk_of_wellFormed hwf₀) hwalk
  obtain ⟨-, hev₂, -⟩ := updateNextTimeout_frame hrun₂
  -- the re-armed timer is claimed to be a member, but it lost its loop
  have howned := hwf'.owned e ((hmem e).mpr ⟨he, Or.inr hre⟩)
  rw [hev₂, hdead e he hexp] at howned
  simp at howned

/--
A timer pass keeps the re-armed timers if and only if there are none: no
expired timer has a handler that re-arms it.
-/
theorem nvLoopProcessTimers_keeps_rearmed_iff
    (s : LoopState E L H)
    (l : List E)
    (hwf : WellFormed s l) :
    PassKeepsRearmed rearms clock s l
      ↔
    ∀ e ∈ l, Expired (clock s.clockReads) s e → ¬ Rearms rearms s e :=
  ⟨quiet_of_passKeepsRearmed rearms clock hwf,
    passKeepsRearmed_of_quiet rearms clock hwf⟩

end ProcessTimers

/-- A loop with the heartbeat timer `0`, which is due, and a later timer `1`. -/
def heartbeatLoop : LoopState (Fin 2) Unit Unit where
  self := ()
  ev := fun e =>
    { handler := some ()
      revents := 0
      timeoutMs := 60000
      expireTime := if e = 0 then 60000 else 90000
      next := if e = 0 then some 1 else none
      prev := if e = 0 then none else some 0
      loop := some ()
      type := .timer
      triggerCount := 0
      lastTrigger := 0 }
  head := some 0
  nextTimeout := 60000
  timersProcessed := 0
  clockReads := 0
  triggers := []

theorem heartbeatLoop_wellFormed : WellFormed heartbeatLoop [0, 1] := by
  refine ⟨by decide, ⟨some 1, ?_⟩, fun e _ => rfl⟩
  simp [Segment, heartbeatLoop, Heap.next, Heap.prev]

/-- The heartbeat pattern: the handler re-arms the due timer, and it is lost. -/
theorem heartbeat_rearm_lost :
    WellFormed heartbeatLoop [0, 1] ∧
      ¬ PassKeepsRearmed (fun _ => [60000]) (fun _ => 60000)
        heartbeatLoop [0, 1] := by
  refine ⟨heartbeatLoop_wellFormed, fun hkeeps => ?_⟩
  refine quiet_of_passKeepsRearmed _ _ heartbeatLoop_wellFormed hkeeps 0 (by simp)
    ?_ ⟨(), rfl, by simp⟩
  simp [Expired, heartbeatLoop]

/-- With a handler that does not re-arm, the same pass does what is promised. -/
theorem heartbeat_quiet_pass :
    WellFormed heartbeatLoop [0, 1] ∧
      PassKeepsRearmed (fun _ => []) (fun _ => 60000) heartbeatLoop [0, 1] := by
  refine ⟨heartbeatLoop_wellFormed, ?_⟩
  rw [nvLoopProcessTimers_keeps_rearmed_iff _ _ _ _ heartbeatLoop_wellFormed]
  rintro e - - ⟨f, -, hne⟩
  exact hne rfl

end Libnv.Loop
