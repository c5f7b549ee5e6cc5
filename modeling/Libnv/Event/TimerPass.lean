import Libnv.Event.ProcessTimers

/-!
# What one timer pass does

A pass of `nv_loop_process_timers` over a list whose handlers leave the timers
alone: which handlers it calls, which timers it leaves in the list, and what
`next_timeout` is afterwards.
-/

namespace Libnv.Loop

universe u v w

open DoublyLinked

section Pass

variable {E : Type u} {L : Type v} {H : Type w} [DecidableEq E] (rearms : H → List UInt64)
variable (clock : Nat → UInt64)

/-- The list of a loop: doubly linked, without duplicates, and every member has a handler and
belongs to a loop. -/
structure Armed (s : LoopState E L H) (l : List E) : Prop where
  nodup : l.Nodup
  linked : Linked s.ev.next s.ev.prev s.head l
  handler : ∀ e ∈ l, (s.ev e).handler ≠ none
  loop : ∀ e ∈ l, (s.ev e).loop ≠ none

theorem Fired.armed {s s' : LoopState E L H} {e : E} {kept rest : List E}
    (hf : Fired s s' e) (ha : Armed s (kept ++ e :: rest)) : Armed s' (kept ++ rest) := by
  obtain ⟨hnotin, hnodup⟩ := List.nodup_cons.mp (List.nodup_middle.mp ha.nodup)
  have hmem : ∀ x ∈ kept ++ rest, x ∈ kept ++ e :: rest := fun x hx =>
    ((List.sublist_cons_self e rest).append_left kept).subset hx
  refine ⟨hnodup, hf.linked ha.nodup ha.linked, ?_, ?_⟩
  · intro x hx
    rw [hf.handler x]
    exact ha.handler x (hmem x hx)
  · intro x hx
    have hxe : x ≠ e := fun h => hnotin (h ▸ hx)
    rw [hf.loop x hxe]
    exact ha.loop x (hmem x hx)

/--
One pass over a well-formed list whose handlers leave the timers alone: it calls the
handlers of the expired timers, each once and in the order of the list, leaves the
other timers in a well-formed list in their order, counts the ones it fired, and sets
`next_timeout` to the earliest of the rest.
-/
theorem nvLoopProcessTimers_fires_expired
    (s : LoopState E L H)
    (l : List E)
    (harmed : Armed s l)
    (hquiet : ∀ e ∈ l, ∀ f, (s.ev e).handler = some f → rearms f = [])
    (fuel : Nat)
    (hfuel : l.length ≤ fuel) :
    ∃ s', nvLoopProcessTimers rearms clock fuel s = some s' ∧
      s'.triggers = s.triggers ++
        (l.filter fun e => Expired (clock s.clockReads) s e).map
          (fun e => (e, (s.ev e).handler)) ∧
      Armed s' (l.filter fun e => ¬ Expired (clock s.clockReads) s e) ∧
      s'.timersProcessed = s.timersProcessed +
        UInt64.ofNat (l.filter fun e => Expired (clock s.clockReads) s e).length ∧
      Earliest ((l.filter fun e => ¬ Expired (clock s.clockReads) s e).map
        fun e => (s.ev e).expireTime) s'.nextTimeout := by
  have hq : ∀ e ∈ l, Expired (clock s.clockReads) s e → ¬ Rearms rearms s e := by
    rintro e he - ⟨f, hf, hne⟩
    exact hne (hquiet e he f hf)
  obtain ⟨s', hrun, harmed', hpass, hmin⟩ :=
    nvLoopProcessTimers_quiet rearms clock (P := Armed)
      (fun _ _ ha => ⟨ha.nodup, ha.linked⟩) (fun _ _ _ _ _ ha hf => hf.armed ha)
      (fun s s' l _ hev hhead ha =>
        ⟨ha.nodup, by rw [hev, hhead]; exact ha.linked, by rw [hev]; exact ha.handler,
          by rw [hev]; exact ha.loop⟩)
      harmed hq hfuel
  refine ⟨s', hrun, ?_, harmed', hpass.timersProcessed, hmin⟩
  rw [hpass.triggers]
  congr 1
  refine List.map_congr_left fun e he => ?_
  have hloop := harmed.loop e (List.mem_of_mem_filter he)
  rw [triggeredHandler, if_pos (Option.isSome_iff_ne_none.mpr hloop)]

end Pass

theorem heartbeatLoop_fires_expired :
    ∃ s', nvLoopProcessTimers (fun _ => []) (fun _ => 60000) 2 heartbeatLoop = some s' ∧
      s'.triggers = [(0, some ())] ∧
      s'.nextTimeout = 90000 := by
  have harmed : Armed heartbeatLoop [0, 1] :=
    ⟨heartbeatLoop_wellFormed.nodup, heartbeatLoop_wellFormed.linked,
      fun _ _ => Option.some_ne_none (), fun _ _ => Option.some_ne_none ()⟩
  obtain ⟨s', hrun, htriggers, -, -, hmin⟩ :=
    nvLoopProcessTimers_fires_expired (fun _ => []) (fun _ => 60000) heartbeatLoop [0, 1] harmed
      (fun _ _ _ _ => rfl) 2 (by decide)
  refine ⟨s', hrun, htriggers, ?_⟩
  rcases hmin with ⟨hnil, -⟩ | ⟨hmem, -⟩
  · exact absurd hnil (by decide)
  · exact List.mem_singleton.mp hmem

end Libnv.Loop
