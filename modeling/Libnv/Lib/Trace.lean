import Mathlib.Data.List.Infix

/-!
# Traces and what must come first

A trace is the list of the events of a run, oldest first.  `Guarded needs ok tr`
says that whenever an event that needs a permission occurs, the events before it
give the permission.  With `ok` monotone (a permission is not lost) the rules
below follow a trace as it grows.
-/

namespace Libnv.Trace

universe u

variable {E : Type u}

/-- Each event of `tr` that needs it has `ok` of the events before it. -/
def Guarded (needs : E → Prop) (ok : List E → Prop) (tr : List E) : Prop :=
  ∀ pre e post, tr = pre ++ e :: post → needs e → ok pre

variable {needs : E → Prop} {ok : List E → Prop}

theorem guarded_nil : Guarded needs ok [] := by
  intro pre e post h
  simp at h

theorem guarded_snoc (tr : List E) (e : E) :
    Guarded needs ok (tr ++ [e]) ↔ Guarded needs ok tr ∧ (needs e → ok tr) := by
  constructor
  · intro h
    refine ⟨fun pre a post htr => h pre a (post ++ [e]) (by simp [htr]), ?_⟩
    exact h tr e [] rfl
  · rintro ⟨h, hlast⟩ pre a post htr hneeds
    rcases List.eq_nil_or_concat post with rfl | ⟨post, b, rfl⟩
    · obtain ⟨rfl, hea⟩ := List.append_inj' htr rfl
      obtain rfl : e = a := by simpa using hea
      exact hlast hneeds
    · rw [List.concat_eq_append, ← List.cons_append, ← List.append_assoc] at htr
      obtain ⟨rfl, -⟩ := List.append_inj' htr rfl
      exact h pre a post rfl hneeds

/-- Events that need nothing may follow. -/
theorem Guarded.append_of_not_needs
    {tr more : List E} (h : Guarded needs ok tr) (hmore : ∀ e ∈ more, ¬ needs e) :
    Guarded needs ok (tr ++ more) := by
  induction more using List.reverseRecOn with
  | nil => simpa using h
  | append_singleton more e ih =>
      rw [← List.append_assoc, guarded_snoc]
      refine ⟨ih fun a ha => hmore a (by simp [ha]), ?_⟩
      intro hneeds
      exact absurd hneeds (hmore e (by simp))

/-- Once the permission is there, any events may follow. -/
theorem Guarded.append_of_ok (hmono : ∀ {tr tr' : List E}, tr <+: tr' → ok tr → ok tr')
    {tr more : List E} (h : Guarded needs ok tr) (hok : ok tr) : Guarded needs ok (tr ++ more) := by
  induction more using List.reverseRecOn with
  | nil => simpa using h
  | append_singleton more e ih =>
      rw [← List.append_assoc, guarded_snoc]
      exact ⟨ih, fun _ => hmono (List.prefix_append tr more) hok⟩

end Libnv.Trace
