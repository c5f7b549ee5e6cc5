import Libnv.Base.Signal
import Libnv.Lib.SlotTable
import Libnv.Lib.Transition

/-!
# Registering signals and shutting down

Along every sequence of `nv_signal_init` and `nv_signal_register` calls the table
has one slot for each registered signal, with the handler of the last call that
stored one, and these signals are blocked in addition to those that were blocked at
the start, but for the four that cannot be blocked.

`nv_signal_shutdown` empties the table, but it unblocks nothing: `g_mask` has been
emptied when it is passed to `sigprocmask`.  The mask of the process is a set; a
call of `sigprocmask` with `SIG_BLOCK` adds to it, with `SIG_UNBLOCK` it takes away.
So a signal that can be blocked stays blocked, one that cannot is not blocked between
the calls, and all is as it should be only with signals that were blocked before.
-/

namespace Libnv.Signal

universe u

open SlotTable Transition

variable {S : Type u}

/-- A call of the module, with the results of the calls of `signalfd` in it. -/
inductive SignalCall (S : Type u) where
  | init (fdOk : Bool)
  | register (signum : Int) (handler : Option (Int → S → S)) (initOk fdOk : Bool)

def SignalCall.apply (g : SignalModule S) : SignalCall S → SignalModule S
  | .init fdOk => (nvSignalInit g fdOk).2
  | .register signum handler initOk fdOk => (nvSignalRegister g signum handler initOk fdOk).2

/--
The signal and the handler that a call stores: its arguments are valid, the
module could be initialised, and the signal has a slot or one is free.
-/
def SignalCall.stores (g : SignalModule S) : SignalCall S → Option (Int × (Int → S → S))
  | .init _ => none
  | .register signum handler initOk _ =>
      let slots := (nvSignalInit g initOk).2.slots
      if 0 < signum ∧ signum < nsig ∧ (nvSignalInit g initOk).1 = 0 ∧
          (slots.any (slotIs signum) ∨ slots.any Option.isNone) then
        handler.map (signum, ·)
      else none

/-- The module, and the handlers that were stored, the last one first. -/
structure SignalRun (S : Type u) where
  module : SignalModule S
  stored : List (Int × (Int → S → S))

/-- One call. -/
def signalStep (r : SignalRun S) (call : SignalCall S) : SignalRun S where
  module := call.apply r.module
  stored := (call.stores r.module).toList ++ r.stored

/-- The module before the first call, with the given signals blocked. -/
def signalRunStart (blocked : Finset Int) : SignalRun S where
  module := signalStart blocked
  stored := []

def SignalRun.registered (r : SignalRun S) : Finset Int :=
  (r.stored.map Prod.fst).toFinset

/-- What is expected of the table between two calls. -/
structure TableKept (r : SignalRun S) : Prop where
  one_slot : ∀ signum, (r.module.slots.filter (slotIs signum)).length ≤ 1
  last_handler : ∀ signum, nvSignalFindHandler r.module signum = r.stored.lookup signum

/-- What is expected of a sequence of calls and of `nv_signal_shutdown` after it. -/
structure ShutdownRestores (blocked : Finset Int) (calls : List (SignalCall S)) : Prop where
  table : ∀ before, before <+: calls → TableKept (run signalStep (signalRunStart blocked) before)
  between : ∀ before, before <+: calls →
    (run signalStep (signalRunStart blocked) before).module.blocked =
      blocked ∪ (run signalStep (signalRunStart blocked) before).registered
  mask : (nvSignalShutdown (run signalStep (signalRunStart blocked) calls).module).blocked = blocked
  empty : (nvSignalShutdown (run signalStep (signalRunStart blocked) calls).module).slots =
    List.replicate nvSignalSlotMax none

section Slots

def signals (slots : List (Option (SignalSlot S))) : List Int :=
  slots.filterMap (Option.map SignalSlot.signum)

variable {left right : List (Option (SignalSlot S))}

theorem signals_used (signum : Int) (handler : Int → S → S) :
    signals (left ++ some ⟨signum, handler⟩ :: right) =
      signals left ++ signum :: signals right := by
  simp [signals]

theorem signals_unused : signals (left ++ none :: right) = signals left ++ signals right := by
  simp [signals]

theorem slotIs_iff {signum : Int} {slot : Option (SignalSlot S)} :
    slotIs signum slot = true ↔ ∃ handler, slot = some ⟨signum, handler⟩ := by
  cases slot with
  | none => simp [slotIs]
  | some entry =>
      obtain ⟨n, handler⟩ := entry
      simp [slotIs]

theorem mem_signals_iff {signum : Int} {slots : List (Option (SignalSlot S))} :
    signum ∈ signals slots ↔ ∃ slot ∈ slots, slotIs signum slot = true := by
  simp only [signals, List.mem_filterMap]
  constructor
  · rintro ⟨slot, hslot, hsignum⟩
    refine ⟨slot, hslot, ?_⟩
    obtain ⟨entry, rfl, rfl⟩ := Option.map_eq_some_iff.mp hsignum
    exact slotIs_iff.mpr ⟨entry.handler, rfl⟩
  · rintro ⟨slot, hslot, hsignum⟩
    obtain ⟨handler, rfl⟩ := slotIs_iff.mp hsignum
    exact ⟨_, hslot, rfl⟩

/-- A signal occurs in the list of signals as often as in the table. -/
theorem length_filter_slotIs (signum : Int) (slots : List (Option (SignalSlot S))) :
    (slots.filter (slotIs signum)).length = (signals slots).count signum := by
  induction slots with
  | nil => rfl
  | cons slot slots ih =>
      cases slot with
      | none => simpa [slotIs, signals] using ih
      | some entry =>
          by_cases hsignum : entry.signum = signum
          · simpa [slotIs, signals, hsignum] using ih
          · simpa [slotIs, signals, hsignum] using ih

end Slots

section Invariant

/-- The table, the mask of the signalfd and the blocked signals agree with what was stored. -/
structure Registered (blocked : Finset Int) (r : SignalRun S) : Prop where
  nodup : (signals r.module.slots).Nodup
  handler : ∀ signum, nvSignalFindHandler r.module signum = r.stored.lookup signum
  mem : ∀ signum, signum ∈ signals r.module.slots ↔ signum ∈ r.registered
  gMask : r.module.gMask = r.registered \ internalSignals
  blocked : r.module.blocked = blocked ∪ (r.registered \ internalSignals) \ unmaskable
  fresh : r.module.inited = false →
    r.module.slots = List.replicate nvSignalSlotMax none ∧ r.stored = []

variable {blocked : Finset Int} {r : SignalRun S}

theorem Registered.start (blocked : Finset Int) :
    Registered blocked (signalRunStart blocked : SignalRun S) where
  nodup := by simp [signalRunStart, signalStart, signals]
  handler := by simp [signalRunStart, signalStart, nvSignalFindHandler, slotIs]
  mem := by simp [signalRunStart, signalStart, signals, SignalRun.registered]
  gMask := by simp [signalRunStart, signalStart, SignalRun.registered]
  blocked := by simp [signalRunStart, signalStart, SignalRun.registered]
  fresh _ := ⟨rfl, rfl⟩

/-- The signalfd and the flag are no part of the invariant once the module is initialised. -/
theorem Registered.frame (h : Registered blocked r) (signalfd : Option (Finset Int)) (inited : Bool)
    (hinited : inited = false → r.module.inited = false) :
    Registered blocked
      { r with module := { r.module with signalfd := signalfd, inited := inited } } where
  nodup := h.nodup
  handler := h.handler
  mem := h.mem
  gMask := h.gMask
  blocked := h.blocked
  fresh hfresh := h.fresh (hinited hfresh)

theorem nvSignalInit_cases (g : SignalModule S) (fdOk : Bool) :
    (nvSignalInit g fdOk).1 = 0 ∧ (nvSignalInit g fdOk).2.inited = true ∨
      (nvSignalInit g fdOk).1 = -1 := by
  unfold nvSignalInit nvSignalUpdateFd
  cases hinited : g.inited with
  | true => exact Or.inl ⟨rfl, hinited⟩
  | false =>
      cases fdOk with
      | true => exact Or.inl ⟨rfl, rfl⟩
      | false => exact Or.inr rfl

theorem Registered.init (h : Registered blocked r) (fdOk : Bool) :
    Registered blocked { r with module := (nvSignalInit r.module fdOk).2 } := by
  cases hinited : r.module.inited with
  | true =>
      have hsame : (nvSignalInit r.module fdOk).2 = r.module := by
        simp [nvSignalInit, hinited]
      rw [hsame]
      exact h
  | false =>
      obtain ⟨hslots, hstored⟩ := h.fresh hinited
      have hmask : r.module.gMask = ∅ := by
        rw [h.gMask]
        simp [SignalRun.registered, hstored]
      -- Resetting the mask and the table does nothing, since nothing was stored.
      have hreset : { r.module with
          gMask := ∅, slots := List.replicate nvSignalSlotMax none } = r.module := by
        rw [← hmask, ← hslots]
      have hfirst : ¬ r.module.inited = true := by simp [hinited]
      cases fdOk with
      | true =>
          have hinit : (nvSignalInit r.module true).2 =
              { r.module with
                signalfd := some (r.module.gMask \ unmaskable), inited := true } := by
            rw [nvSignalInit, if_neg hfirst, hreset]
            rfl
          rw [hinit]
          exact h.frame _ true (by simp)
      | false =>
          have hinit : (nvSignalInit r.module false).2 = r.module := by
            rw [nvSignalInit, if_neg hfirst, hreset]
            rfl
          rw [hinit]
          exact h

theorem sigaddset_sdiff (signals : Finset Int) (signum : Int) :
    sigaddset (signals \ internalSignals) signum = insert signum signals \ internalSignals := by
  unfold sigaddset
  split_ifs with h
  · exact (Finset.insert_sdiff_of_mem signals h).symm
  · exact (Finset.insert_sdiff_of_notMem signals h).symm

theorem registered_stored (g : SignalModule S) (signum : Int) (handler : Int → S → S) :
    (⟨g, (signum, handler) :: r.stored⟩ : SignalRun S).registered =
      insert signum r.registered := by
  simp [SignalRun.registered]

/-- The handler of a signal that has a slot is replaced. -/
theorem Registered.overwrite (h : Registered blocked r) (hinited : r.module.inited = true)
    {signum : Int} {i : Nat} (hi : r.module.slots.findIdx? (slotIs signum) = some i)
    (handler : Int → S → S) :
    Registered blocked
      ⟨{ r.module with slots := r.module.slots.set i (some ⟨signum, handler⟩) },
        (signum, handler) :: r.stored⟩ := by
  obtain ⟨left, old, right, hslots, rfl, hold, hleft⟩ := split_of_findIdx? hi
  obtain ⟨handler', rfl⟩ := slotIs_iff.mp hold
  have hsignals : signals (left ++ some ⟨signum, handler⟩ :: right) = signals r.module.slots := by
    rw [hslots, signals_used, signals_used]
  have hregistered : insert signum r.registered = r.registered :=
    Finset.insert_eq_of_mem ((h.mem signum).mp (by rw [hslots, signals_used]; simp))
  rw [hslots, set_split]
  exact {
    nodup := by
      rw [hsignals]
      exact h.nodup
    handler := by
      intro m
      by_cases hm : m = signum
      · subst hm
        simp [nvSignalFindHandler, find?_first hleft (slotIs_iff.mpr ⟨handler, rfl⟩)]
      · have hother : ∀ f : Int → S → S, slotIs m (some ⟨signum, f⟩) = false := by
          intro f
          simpa [slotIs] using Ne.symm hm
        have hfind := h.handler m
        unfold nvSignalFindHandler at hfind ⊢
        rw [hslots, ← find?_replace (hother handler') (hother handler)] at hfind
        rw [List.lookup_cons, beq_false_of_ne hm]
        exact hfind
    mem := by
      intro m
      rw [hsignals, registered_stored, hregistered]
      exact h.mem m
    gMask := by
      rw [registered_stored, hregistered]
      exact h.gMask
    blocked := by
      rw [registered_stored, hregistered]
      exact h.blocked
    fresh := fun hfresh => absurd hinited (by simpa using hfresh) }

/-- A signal gets a free slot, and is blocked if it can be. -/
theorem Registered.add (h : Registered blocked r) (hinited : r.module.inited = true) {signum : Int}
    (hnone : r.module.slots.findIdx? (slotIs signum) = none) {i : Nat}
    (hi : r.module.slots.findIdx? Option.isNone = some i) (handler : Int → S → S) :
    Registered blocked
      ⟨{ r.module with
          slots := r.module.slots.set i (some ⟨signum, handler⟩)
          gMask := sigaddset r.module.gMask signum
          blocked := r.module.blocked ∪ sigaddset r.module.gMask signum \ unmaskable },
        (signum, handler) :: r.stored⟩ := by
  obtain ⟨left, old, right, hslots, rfl, hold, -⟩ := split_of_findIdx? hi
  obtain rfl : old = none := Option.isNone_iff_eq_none.mp hold
  have hfree : ∀ slot ∈ r.module.slots, slotIs signum slot = false :=
    List.findIdx?_eq_none_iff.mp hnone
  have hnew : signum ∉ signals left ++ signals right := by
    rw [← signals_unused, ← hslots, mem_signals_iff]
    rintro ⟨slot, hslot, hsignum⟩
    rw [hfree slot hslot] at hsignum
    exact Bool.false_ne_true hsignum
  have hold := h.nodup
  rw [hslots, signals_unused] at hold
  rw [hslots, set_split]
  exact {
    nodup := by
      rw [signals_used]
      exact List.nodup_middle.mpr (List.nodup_cons.mpr ⟨hnew, hold⟩)
    handler := by
      intro m
      by_cases hm : m = signum
      · subst hm
        have hleft : ∀ slot ∈ left, slotIs m slot = false := by
          intro slot hslot
          exact hfree slot (by rw [hslots]; exact List.mem_append_left _ hslot)
        simp [nvSignalFindHandler, find?_first hleft (slotIs_iff.mpr ⟨handler, rfl⟩)]
      · have hother : slotIs m (some ⟨signum, handler⟩) = false := by
          simpa [slotIs] using Ne.symm hm
        have hunused : slotIs m (none : Option (SignalSlot S)) = false := rfl
        have hfind := h.handler m
        unfold nvSignalFindHandler at hfind ⊢
        rw [hslots, ← find?_replace hunused hother] at hfind
        rw [List.lookup_cons, beq_false_of_ne hm]
        exact hfind
    mem := by
      intro m
      have hmem := h.mem m
      rw [hslots, signals_unused, List.mem_append] at hmem
      rw [registered_stored, Finset.mem_insert, ← hmem, signals_used, List.mem_append,
        List.mem_cons]
      exact or_left_comm
    gMask := by
      rw [registered_stored, ← sigaddset_sdiff, ← h.gMask]
    blocked := by
      have hmore : (r.registered \ internalSignals) \ unmaskable ⊆
          (insert signum r.registered \ internalSignals) \ unmaskable :=
        Finset.sdiff_subset_sdiff
          (Finset.sdiff_subset_sdiff (Finset.subset_insert _ _) subset_rfl) subset_rfl
      rw [registered_stored]
      show r.module.blocked ∪ sigaddset r.module.gMask signum \ unmaskable = _
      rw [h.blocked, h.gMask, sigaddset_sdiff, Finset.union_assoc, Finset.union_eq_right.mpr hmore]
    fresh := fun hfresh => absurd hinited (by simpa using hfresh) }

/-- The second part of `nv_signal_register` keeps the invariant. -/
theorem Registered.registerSlot (h : Registered blocked r) (hinited : r.module.inited = true)
    (signum : Int) (handler : Int → S → S) (fdOk : Bool) :
    Registered blocked
      ⟨(registerSlot r.module signum handler fdOk).2,
        (if r.module.slots.any (slotIs signum) ∨ r.module.slots.any Option.isNone then
          [(signum, handler)] else []) ++ r.stored⟩ := by
  unfold Signal.registerSlot
  split
  next i hi =>
    have hany : r.module.slots.any (slotIs signum) = true := by
      rw [← List.findIdx?_isSome, hi]
      rfl
    rw [if_pos (Or.inl hany)]
    exact h.overwrite hinited hi handler
  next hnone =>
    split
    next i hi =>
      have hany : r.module.slots.any Option.isNone = true := by
        rw [← List.findIdx?_isSome, hi]
        rfl
      have hadd := h.add hinited hnone hi handler
      rw [if_pos (Or.inr hany)]
      unfold nvSignalUpdateFd
      split
      · exact hadd.frame _ r.module.inited id
      · exact hadd
    next hfull =>
      have hnot : ¬(r.module.slots.any (slotIs signum) = true ∨
          r.module.slots.any Option.isNone = true) := by
        rw [← List.findIdx?_isSome, ← List.findIdx?_isSome, hnone, hfull]
        simp
      rw [if_neg hnot]
      exact h

theorem Registered.step (r : SignalRun S) (call : SignalCall S) (h : Registered blocked r) :
    Registered blocked (signalStep r call) := by
  cases call with
  | init fdOk => exact h.init fdOk
  | register signum handler initOk fdOk =>
      have hinit := h.init initOk
      cases handler with
      | none =>
          have hsame : signalStep r (.register signum none initOk fdOk) = r := by
            simp [signalStep, SignalCall.apply, SignalCall.stores, nvSignalRegister]
          rw [hsame]
          exact h
      | some handler =>
          simp only [signalStep, SignalCall.apply, SignalCall.stores, nvSignalRegister]
          by_cases hrange : signum ≤ 0 ∨ nsig ≤ signum
          · have hnot : ¬(0 < signum ∧ signum < nsig ∧ (nvSignalInit r.module initOk).1 = 0 ∧
                ((nvSignalInit r.module initOk).2.slots.any (slotIs signum) = true ∨
                  (nvSignalInit r.module initOk).2.slots.any Option.isNone = true)) := by
              rintro ⟨hlo, hhi, -⟩
              omega
            rw [if_pos hrange, if_neg hnot]
            exact h
          · have hcases := nvSignalInit_cases r.module initOk
            have hvalid : 0 < signum ∧ signum < nsig := by omega
            rw [if_neg hrange]
            generalize nvSignalInit r.module initOk = result at hinit hcases ⊢
            obtain ⟨rc, g⟩ := result
            rcases hcases with ⟨hrc, hinited⟩ | hrc
            · obtain rfl : rc = 0 := hrc
              have hslot := Registered.registerSlot hinit hinited signum handler fdOk
              by_cases hroom : g.slots.any (slotIs signum) = true ∨ g.slots.any Option.isNone = true
              · rw [if_pos hroom] at hslot
                rw [if_pos ⟨hvalid.1, hvalid.2, rfl, hroom⟩]
                exact hslot
              · rw [if_neg hroom] at hslot
                rw [if_neg fun hcond => hroom hcond.2.2.2]
                exact hslot
            · obtain rfl : rc = -1 := hrc
              simpa using hinit

theorem Registered.tableKept (h : Registered blocked r) : TableKept r where
  one_slot signum := by
    rw [length_filter_slotIs]
    exact List.nodup_iff_count_le_one.mp h.nodup signum
  last_handler := h.handler

theorem Registered.run (blocked : Finset Int) (calls : List (SignalCall S)) :
    Registered blocked (run signalStep (signalRunStart blocked) calls) :=
  run_invariant Registered.step (Registered.start blocked) calls

theorem registered_subset_run (r : SignalRun S) (calls : List (SignalCall S)) :
    r.registered ⊆ (Transition.run signalStep r calls).registered := by
  have hstep : ∀ (r' : SignalRun S) call, r.registered ⊆ r'.registered →
      r.registered ⊆ (signalStep r' call).registered := by
    intro r' call hsub
    refine hsub.trans fun signum hmem => ?_
    simp only [SignalRun.registered, signalStep, List.mem_toFinset, List.map_append,
      List.mem_append] at hmem ⊢
    exact Or.inr hmem
  exact run_invariant hstep subset_rfl calls

end Invariant

/--
The table is as it should be after every sequence of calls.  Between the calls the
registered signals are blocked with the old ones, and after `nv_signal_shutdown` the
old ones alone and the table is empty, exactly if every registered signal was blocked
before.
-/
theorem nvSignal_shutdown_restores_iff
    (blocked : Finset Int)
    (calls : List (SignalCall S)) :
    TableKept (run signalStep (signalRunStart blocked) calls) ∧
      (ShutdownRestores blocked calls ↔
        (run signalStep (signalRunStart blocked) calls).registered ⊆ blocked) := by
  have hrun := Registered.run blocked calls
  have hshutdown : (nvSignalShutdown (run signalStep (signalRunStart blocked) calls).module).blocked =
      (run signalStep (signalRunStart blocked) calls).module.blocked :=
    Finset.sdiff_empty
  refine ⟨hrun.tableKept, ?_, ?_⟩
  · intro h
    rw [← Finset.union_eq_left, ← h.between calls List.prefix_rfl, ← hshutdown]
    exact h.mask
  · intro hsub
    have hold : ∀ before, before <+: calls →
        (run signalStep (signalRunStart blocked) before).registered ⊆ blocked := by
      rintro before ⟨rest, rfl⟩
      rw [run_append] at hsub
      exact (registered_subset_run _ rest).trans hsub
    have hblocked : ∀ before, before <+: calls →
        (run signalStep (signalRunStart blocked) before).module.blocked = blocked := by
      intro before hbefore
      rw [(Registered.run blocked before).blocked, Finset.union_eq_left]
      exact (Finset.sdiff_subset.trans Finset.sdiff_subset).trans (hold before hbefore)
    refine ⟨fun before _ => (Registered.run blocked before).tableKept, ?_, ?_, rfl⟩
    · intro before hbefore
      rw [hblocked before hbefore, Finset.union_eq_left.mpr (hold before hbefore)]
    · rw [hshutdown]
      exact hblocked calls List.prefix_rfl

/-- `SIGTERM` is registered and stays blocked. -/
theorem sigTerm_stays_blocked :
    let r := run signalStep (signalRunStart ∅ : SignalRun Unit)
      [.init true, .register sigTerm (some fun _ s => s) true true]
    r.registered = {sigTerm} ∧ (nvSignalShutdown r.module).blocked = {sigTerm} := by
  decide

end Libnv.Signal
