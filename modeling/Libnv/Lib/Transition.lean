import Mathlib.Data.List.Infix
import Mathlib.Algebra.GroupWithZero.Nat

/-!
# Runs of a labelled transition function

A system is a function `step : S → A → S`: in state `s`, the action `a` (a
thread taking its next step, a call with its arguments, a result chosen by the
environment) leads to `step s a`.  An action that is not enabled leaves the
state as it is.  A run is a list of actions.

`Along step good s as` says that every step of the run `as` from `s` meets the
condition `good` on the state before it, and `AlongSteps` the same for a
relation between the two states.  The rules below derive what holds at the end
of a run, or at every step of it, from what one step preserves.
-/

namespace Libnv.Transition

universe u v w

variable {S : Type u} {A : Type v}

/-- The state reached from `s` by the actions `as`. -/
def run (step : S → A → S) (s : S) (as : List A) : S :=
  as.foldl step s

/-- Every step of the run meets `good`. -/
def Along (step : S → A → S) (good : S → A → Prop) : S → List A → Prop
  | _, [] => True
  | s, a :: as => good s a ∧ Along step good (step s a) as

instance decidableAlong (step : S → A → S) (good : S → A → Prop) [∀ s a, Decidable (good s a)] :
    ∀ s as, Decidable (Along step good s as)
  | _, [] => inferInstanceAs (Decidable True)
  | s, a :: as =>
      have := decidableAlong step good (step s a) as
      inferInstanceAs (Decidable (good s a ∧ Along step good (step s a) as))

/-- Every step of the run relates its two states by `rel`. -/
def AlongSteps (step : S → A → S) (rel : S → S → Prop) (s : S) (as : List A) : Prop :=
  Along step (fun s a => rel s (step s a)) s as

section Rules

variable {step : S → A → S}
variable {Inv : S → Prop} {as : List A} {good prop : S → A → Prop} {ok : A → Prop} {s : S}

@[simp] theorem run_nil (s : S) : run step s [] = s := rfl

@[simp] theorem run_cons (s : S) (a : A) (as : List A) :
    run step s (a :: as) = run step (step s a) as := rfl

@[simp] theorem run_append (s : S) (as bs : List A) :
    run step s (as ++ bs) = run step (run step s as) bs := by
  simp [run]

theorem along_append (s : S) (as bs : List A) :
    Along step good s (as ++ bs) ↔
      Along step good s as ∧ Along step good (run step s as) bs := by
  induction as generalizing s with
  | nil => simp [Along]
  | cons a as ih => simp [Along, ih, and_assoc]

theorem along_iff_forall_mem {good : A → Prop} (s : S) (as : List A) :
    Along step (fun _ a => good a) s as ↔ ∀ a ∈ as, good a := by
  induction as generalizing s with
  | nil => simp [Along]
  | cons a as ih => simp [Along, ih]

/-- What the actions of a run do in every state. -/
theorem along_of_forall_mem (h : ∀ a ∈ as, ∀ s, good s a) (s : S) : Along step good s as := by
  induction as generalizing s with
  | nil => trivial
  | cons a as ih =>
      obtain ⟨ha, hrest⟩ := List.forall_mem_cons.mp h
      exact ⟨ha s, ih hrest (step s a)⟩

/-- What every step preserves holds at the end of every run. -/
theorem run_invariant (hstep : ∀ s a, Inv s → Inv (step s a)) (hs : Inv s) (as : List A) :
    Inv (run step s as) := by
  induction as generalizing s with
  | nil => exact hs
  | cons a as ih => exact ih (hstep s a hs)

theorem run_unchanged
    {T : Type w} (f : S → T) (hstep : ∀ s a, f (step s a) = f s) (s : S) (as : List A) :
    f (run step s as) = f s := by
  induction as generalizing s with
  | nil => rfl
  | cons a as ih => exact (ih (step s a)).trans (hstep s a)

/-- What every good step preserves holds at the end of every good run. -/
theorem run_invariant_of_along (hstep : ∀ s a, Inv s → good s a → Inv (step s a)) (hs : Inv s)
    (hgood : Along step good s as) : Inv (run step s as) := by
  induction as generalizing s with
  | nil => exact hs
  | cons a as ih => exact ih (hstep s a hs hgood.1) hgood.2

/-- Steps that may fail, and never do in the states of the run. -/
theorem foldlM_eq_run {tryStep : S → A → Option S}
    (hstep : ∀ s a, Inv s → ok a → tryStep s a = some (step s a) ∧ Inv (step s a))
    (hs : Inv s) (has : ∀ a ∈ as, ok a) :
    as.foldlM tryStep s = some (run step s as) ∧ Inv (run step s as) := by
  induction as generalizing s with
  | nil => exact ⟨rfl, hs⟩
  | cons a as ih =>
      obtain ⟨ha, hrest⟩ := List.forall_mem_cons.mp has
      obtain ⟨hdone, hnext⟩ := hstep s a hs ha
      rw [List.foldlM_cons, hdone]
      exact ih hnext hrest

/-- A property of all states on the way, by the steps that lead to them. -/
theorem forall_run_iff_along {P : S → Prop} (s : S) (as : List A) :
    (∀ before, before <+: as → P (run step s before)) ↔
      P s ∧ Along step (fun s a => P (step s a)) s as := by
  simp only [← List.mem_inits]
  induction as generalizing s with
  | nil => simp [Along]
  | cons a as ih =>
      simp only [List.inits_cons, List.forall_mem_cons, List.forall_mem_map, run_nil, run_cons, ih,
        Along]

/-- What every good step has, and keeps possible, holds at every step of a good run. -/
theorem along_of_along (hstep : ∀ s a, Inv s → ok a → good s a → prop s a ∧ Inv (step s a))
    (hs : Inv s) (hok : ∀ a ∈ as, ok a) (hgood : Along step good s as) : Along step prop s as := by
  induction as generalizing s with
  | nil => trivial
  | cons a as ih =>
      have ha := hok a List.mem_cons_self
      have hrest : ∀ b ∈ as, ok b := fun b hb => hok b (List.mem_cons_of_mem a hb)
      obtain ⟨hprop, hinv⟩ := hstep s a hs ha hgood.1
      exact ⟨hprop, ih hinv hrest hgood.2⟩

/--
An exact step condition, read off another system that follows the same actions:
if the steps of the first system with the property `prop` are exactly those that
meet `good` in the second, and these keep the two related, then the runs with the
property throughout are exactly the good runs.  `ok` restricts the steps that are
considered.
-/
theorem along_iff_along_of_rel {T : Type w} {step' : T → A → T} {Rel : S → T → Prop}
    {ok : S → A → Prop} {good : T → A → Prop}
    (hkeep : ∀ s t a, Rel s t → ok s a → good t a → Rel (step s a) (step' t a))
    (hprop : ∀ s t a, Rel s t → ok s a → (prop s a ↔ good t a))
    {t : T} (hst : Rel s t) (hok : Along step ok s as) :
    Along step prop s as ↔ Along step' good t as := by
  induction as generalizing s t with
  | nil => exact Iff.rfl
  | cons a as ih =>
      have hhead := hprop s t a hst hok.1
      constructor
      · rintro ⟨hp, hrest⟩
        have hg := hhead.mp hp
        exact ⟨hg, (ih (hkeep s t a hst hok.1 hg) hok.2).mp hrest⟩
      · rintro ⟨hg, hrest⟩
        exact ⟨hhead.mpr hg, (ih (hkeep s t a hst hok.1 hg) hok.2).mpr hrest⟩

/-- An exact step condition on the system itself. -/
theorem along_iff_along_of_along {ok : S → A → Prop}
    (hkeep : ∀ s a, Inv s → ok s a → good s a → Inv (step s a))
    (hprop : ∀ s a, Inv s → ok s a → (prop s a ↔ good s a))
    (hs : Inv s) (hok : Along step ok s as) : Along step prop s as ↔ Along step good s as := by
  let Rel : S → S → Prop := fun s t => s = t ∧ Inv s
  have hst : Rel s s := ⟨rfl, hs⟩
  refine along_iff_along_of_rel ?_ ?_ hst hok
  · rintro s _ a ⟨rfl, hs⟩ ha hg
    exact ⟨rfl, hkeep s a hs ha hg⟩
  · rintro s _ a ⟨rfl, hs⟩ ha
    exact hprop s a hs ha

/-- An exact step condition where `ok` restricts the actions alone. -/
theorem along_iff_along (hkeep : ∀ s a, Inv s → ok a → good s a → Inv (step s a))
    (hprop : ∀ s a, Inv s → ok a → (prop s a ↔ good s a)) (hs : Inv s) (hok : ∀ a ∈ as, ok a) :
    Along step prop s as ↔ Along step good s as :=
  along_iff_along_of_along hkeep hprop hs ((along_iff_forall_mem s as).mpr hok)

/-- An exact step condition for all actions. -/
theorem along_iff_along_of_inv (hs : Inv s) (hkeep : ∀ s a, Inv s → good s a → Inv (step s a))
    (hprop : ∀ s a, Inv s → (prop s a ↔ good s a)) (as : List A) :
    Along step prop s as ↔ Along step good s as := by
  have hall : ∀ a ∈ as, True := fun _ _ => trivial
  exact along_iff_along (fun s a hs _ => hkeep s a hs) (fun s a hs _ => hprop s a hs) hs hall

/--
What holds at the end of exactly the good runs: good steps keep the invariant,
and the first bad one leads where the property is lost for good.
-/
theorem run_iff_along {Bad prop : S → Prop} (hkeep : ∀ s a, Inv s → good s a → Inv (step s a))
    (hbreak : ∀ s a, Inv s → ¬ good s a → Bad (step s a)) (hstay : ∀ s a, Bad s → Bad (step s a))
    (hinv : ∀ s, Inv s → prop s) (hbad : ∀ s, Bad s → ¬ prop s) (hs : Inv s) (as : List A) :
    prop (run step s as) ↔ Along step good s as := by
  induction as generalizing s with
  | nil => exact ⟨fun _ => trivial, fun _ => hinv s hs⟩
  | cons a as ih =>
      by_cases hgood : good s a
      · rw [run_cons, ih (hkeep s a hs hgood)]
        exact ⟨fun hrest => ⟨hgood, hrest⟩, And.right⟩
      · have hlost : Bad (run step (step s a) as) := run_invariant hstay (hbreak s a hs hgood) as
        exact ⟨fun hprop => absurd hprop (hbad _ hlost), fun halong => absurd halong.1 hgood⟩

end Rules

/-- A system of one party, as `Fin 1`: the proof that a numeral of it carries. -/
theorem neZero_one : NeZero 1 := ⟨Nat.one_ne_zero⟩

theorem neZero_two : NeZero 2 := ⟨Nat.succ_ne_zero 1⟩

end Libnv.Transition
