import Mathlib.Data.List.Basic
import Mathlib.Data.List.Nodup

/-!
# Starting and stopping in pairs

A trace records which parts of a system were started and which were stopped.  It
is well paired when a part is stopped only after it was started, at most once,
and in the reverse of the order in which the parts were started.
-/

namespace Libnv.Lifecycle

universe u

variable {α : Type u}

/-- A part has been started, or is stopped. -/
inductive Event (α : Type u) where
  | start (a : α)
  | stop (a : α)
deriving DecidableEq

def Event.started? : Event α → Option α
  | .start a => some a
  | .stop _ => none

def Event.stopped? : Event α → Option α
  | .start _ => none
  | .stop a => some a

def starts (trace : List (Event α)) : List α :=
  trace.filterMap Event.started?

/-- The parts that were stopped, in order. -/
def stops (trace : List (Event α)) : List α :=
  trace.filterMap Event.stopped?

/-- Parts are stopped after they were started, once, and in the reverse order. -/
structure Paired (trace : List (Event α)) : Prop where
  only : ∀ before a after, trace = before ++ .stop a :: after → .start a ∈ before
  once : (stops trace).Nodup
  reverse : (stops trace).Sublist (starts trace).reverse

theorem starts_phases (xs ys : List α) : starts (xs.map .start ++ ys.map .stop) = xs := by
  simp [starts, List.filterMap_map, Function.comp_def, Event.started?]

theorem stops_phases (xs ys : List α) : stops (xs.map .start ++ ys.map .stop) = ys := by
  simp [stops, List.filterMap_map, Function.comp_def, Event.stopped?]

/-- When everything is started before anything is stopped, only the two orders matter. -/
theorem paired_phases_iff (xs ys : List α) :
    Paired (xs.map .start ++ ys.map .stop) ↔ ys.Nodup ∧ ys.Sublist xs.reverse := by
  constructor
  · intro h
    have honce := h.once
    have hreverse := h.reverse
    rw [stops_phases] at honce hreverse
    rw [starts_phases] at hreverse
    exact ⟨honce, hreverse⟩
  · rintro ⟨honce, hreverse⟩
    refine ⟨?_, by rwa [stops_phases], by rwa [stops_phases, starts_phases]⟩
    intro before a after htrace
    have hstop : Event.stop a ∈ xs.map Event.start ++ ys.map Event.stop := by
      rw [htrace]
      exact List.mem_append_right _ List.mem_cons_self
    have ha : a ∈ ys := by simpa using hstop
    have hstart : Event.start a ∈ xs.map Event.start :=
      List.mem_map_of_mem (List.mem_reverse.mp (hreverse.subset ha))
    -- The stop cannot stand among the starts, so that all of them stand before it.
    rcases List.append_eq_append_iff.mp htrace with ⟨more, rfl, -⟩ | ⟨more, hstarts, hstops⟩
    · exact List.mem_append_left _ hstart
    · cases more with
      | nil => rwa [hstarts, List.append_nil] at hstart
      | cons event more =>
          obtain ⟨rfl, -⟩ := List.cons.inj hstops
          have hmem : Event.stop a ∈ xs.map Event.start := by
            rw [hstarts]
            exact List.mem_append_right _ List.mem_cons_self
          simp at hmem

end Libnv.Lifecycle
