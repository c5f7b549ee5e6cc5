import Mathlib.Data.Fintype.Card
import Mathlib.Logic.Relation
import Mathlib.Order.WellFounded

/-!
# Wait-for graphs

`waits a b` says that `a` cannot go on before `b` does something.  A finite graph
without cycles always has somebody who waits for nobody.  The graph stays free of
cycles when edges go away, when a node that waits for nobody is waited for, and
when a node begins to wait for nodes that do not, directly or through others,
wait for it.
-/

namespace Libnv.WaitFor

open Relation

universe u

variable {T : Type u}

/-- Nobody waits for itself, directly or through others. -/
def Acyclic (waits : T → T → Prop) : Prop :=
  ∀ a, ¬ TransGen waits a a

variable {waits waits' : T → T → Prop}

theorem Acyclic.mono (h : Acyclic waits) (hle : ∀ a b, waits' a b → waits a b) : Acyclic waits' :=
  fun a hcycle => h a (TransGen.mono hle a a hcycle)

/-- A node that waits for nobody may be waited for. -/
theorem Acyclic.sink (h : Acyclic waits) {t : T} (hsink : ∀ b, ¬ waits' t b)
    (hle : ∀ a b, waits' a b → waits a b ∨ b = t) : Acyclic waits' := by
  have hpath : ∀ a b, TransGen waits' a b → TransGen waits a b ∨ b = t := by
    intro a b hab
    induction hab with
    | single hedge => exact (hle _ _ hedge).imp TransGen.single id
    | tail _ hedge ih =>
        rcases ih with hold | rfl
        · exact (hle _ _ hedge).imp hold.tail id
        · exact absurd hedge (hsink _)
  intro a hcycle
  rcases hpath a a hcycle with hold | rfl
  · exact h a hold
  · obtain ⟨b, hedge, -⟩ := TransGen.head'_iff.mp hcycle
    exact hsink b hedge

/-- A node may begin to wait for nodes that do not wait for it. -/
theorem Acyclic.source (h : Acyclic waits) {t : T}
    (hle : ∀ a b, waits' a b → waits a b ∨ a = t ∧ ¬ ReflTransGen waits b t) : Acyclic waits' := by
  -- The nodes from which `t` is not reached are never left, and inside them and
  -- outside them all edges are old.
  have hclosed : ∀ a b, waits' a b → ¬ ReflTransGen waits a t →
      waits a b ∧ ¬ ReflTransGen waits b t := by
    intro a b hedge hfar
    rcases hle a b hedge with hold | ⟨rfl, -⟩
    · exact ⟨hold, fun hback => hfar (hback.head hold)⟩
    · exact absurd ReflTransGen.refl hfar
  have hpath : ∀ a b, TransGen waits' a b →
      (¬ ReflTransGen waits a t → TransGen waits a b ∧ ¬ ReflTransGen waits b t) ∧
      (TransGen waits a b ∨ ¬ ReflTransGen waits b t) := by
    intro a b hab
    induction hab with
    | single hedge =>
        refine ⟨fun hfar => ?_, (hle _ _ hedge).imp TransGen.single And.right⟩
        obtain ⟨hold, hfar'⟩ := hclosed _ _ hedge hfar
        exact ⟨TransGen.single hold, hfar'⟩
    | tail _ hedge ih =>
        refine ⟨fun hfar => ?_, ?_⟩
        · obtain ⟨hold, hfar'⟩ := ih.1 hfar
          obtain ⟨hnext, hfar''⟩ := hclosed _ _ hedge hfar'
          exact ⟨hold.tail hnext, hfar''⟩
        · rcases ih.2 with hold | hfar
          · exact (hle _ _ hedge).imp hold.tail And.right
          · exact Or.inr (hclosed _ _ hedge hfar).2
  intro a hcycle
  rcases (hpath a a hcycle).2 with hold | hfar
  · exact h a hold
  · exact h a ((hpath a a hcycle).1 hfar).1

/-- Among finitely many nodes without a cycle, one waits for none of the others. -/
theorem Acyclic.exists_free
    [Finite T] (h : Acyclic waits) (blocked : T → Prop) {a : T} (ha : blocked a) :
    ∃ b, blocked b ∧ ∀ c, blocked c → ¬ waits b c := by
  have hirrefl : Std.Irrefl fun a b => TransGen waits b a := ⟨h⟩
  have htrans : IsTrans T fun a b => TransGen waits b a := ⟨fun _ _ _ hab hbc => hbc.trans hab⟩
  have hwf := Finite.wellFounded_of_trans_of_irrefl fun a b => TransGen waits b a
  obtain ⟨b, hb, hmin⟩ := hwf.has_min {b | blocked b} ⟨a, ha⟩
  exact ⟨b, hb, fun c hc hedge => hmin c hc (TransGen.single hedge)⟩

end Libnv.WaitFor
