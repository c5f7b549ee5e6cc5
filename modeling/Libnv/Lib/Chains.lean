import Mathlib.Logic.Function.Basic
import Mathlib.Data.List.Nodup
import Mathlib.Data.List.Induction
import Libnv.Lib.SlotTable
import Libnv.Lib.Transition

/-!
# Chained tables and the maps they stand for

The calls that a map has seen determine the value of every key: it is that of the
last call about the key.  `lastValue_run` is the rule by which a table is shown to
stand for this map, and `forall_prefix_iff` the one for a table that does so only
under a condition on the calls.

A chain is a list of nodes, searched from its head.  A table is a family of chains,
and every key has its own chain in it.
-/

namespace Libnv.Chains

open Transition

universe u v w

section History

/-- A call that gives a key a value, or takes it away. -/
inductive MapCall (K : Type u) (V : Type v) where
  | insert (k : K) (v : V)
  | remove (k : K)

variable {K : Type u} {V : Type v} {S : Type w} [DecidableEq K]

def MapCall.key : MapCall K V → K
  | .insert k _ | .remove k => k

def MapCall.value? : MapCall K V → Option V
  | .insert _ v => some v
  | .remove _ => none

/-- The value of the last insertion of `k` that no removal of `k` follows. -/
def lastValue (k : K) (calls : List (MapCall K V)) : Option V :=
  (calls.reverse.find? fun call => call.key = k).bind MapCall.value?

theorem lastValue_concat (k : K) (calls : List (MapCall K V)) (call : MapCall K V) :
    lastValue k (calls ++ [call]) = if call.key = k then call.value? else lastValue k calls := by
  unfold lastValue
  rw [List.reverse_append, List.reverse_singleton, List.singleton_append, List.find?_cons]
  by_cases hkey : call.key = k
  · simp [hkey]
  · simp [hkey]

/-- A table whose answers change as the calls say stands for the map. -/
theorem lastValue_run {step : S → MapCall K V → S} {answer : S → K → Option V} {Inv : S → Prop}
    (hkeep : ∀ s call, Inv s → Inv (step s call))
    (hanswer : ∀ s call k, Inv s →
      answer (step s call) k = if call.key = k then call.value? else answer s k)
    {s : S} (hs : Inv s) (hempty : ∀ k, answer s k = none)
    (calls : List (MapCall K V)) (k : K) : answer (run step s calls) k = lastValue k calls := by
  induction calls using List.reverseRecOn with
  | nil => exact hempty k
  | append_singleton calls call ih =>
      rw [run_append, lastValue_concat, ← ih]
      exact hanswer _ call k (run_invariant hkeep hs calls)

/--
An exact condition on the history: if a call after a good history leads to the
property exactly when it is good itself, the histories with the property throughout
are those of good calls.
-/
theorem forall_prefix_iff {A : Type w} {Inv prop : List A → Prop} {good : List A → A → Prop}
    (hstart : Inv []) (hnil : prop []) (hkeep : ∀ as a, Inv as → good as a → Inv (as ++ [a]))
    (hprop : ∀ as a, Inv as → (prop (as ++ [a]) ↔ good as a)) (as : List A) :
    (∀ pre, pre <+: as → prop pre) ↔ ∀ pre a, pre ++ [a] <+: as → good pre a := by
  have hinv : ∀ as : List A, (∀ pre a, pre ++ [a] <+: as → good pre a) → Inv as := by
    intro as
    induction as using List.reverseRecOn with
    | nil => exact fun _ => hstart
    | append_singleton as a ih =>
        intro hgood
        refine hkeep as a (ih fun pre b hpre => ?_) (hgood as a (List.prefix_refl _))
        exact hgood pre b (hpre.trans (List.prefix_append as [a]))
  constructor
  · induction as using List.reverseRecOn with
    | nil =>
        intro _ pre a hpre
        exact absurd (List.prefix_nil.mp hpre) (by simp)
    | append_singleton as a ih =>
        intro hall
        have hgood := ih fun pre hpre => hall pre (hpre.trans (List.prefix_append as [a]))
        intro pre b hpre
        rcases List.prefix_concat_iff.mp hpre with heq | hpre
        · obtain ⟨rfl, hb⟩ := List.append_inj' heq rfl
          obtain rfl : b = a := List.singleton_inj.mp hb
          exact (hprop pre b (hinv pre hgood)).mp (hall _ (List.prefix_refl _))
        · exact hgood pre b hpre
  · intro hgood pre hpre
    rcases List.eq_nil_or_concat pre with rfl | ⟨front, a, rfl⟩
    · exact hnil
    · rw [List.concat_eq_append] at hpre ⊢
      have hfront := hinv front fun pre b hpre' =>
        hgood pre b (hpre'.trans ((List.prefix_append front [a]).trans hpre))
      exact (hprop front a hfront).mpr (hgood front a hpre)

end History

section Chain

/-- A node of a chain. -/
structure Node (K : Type u) (V : Type v) where
  key : K
  value : V
deriving DecidableEq

variable {K : Type u} {V : Type v} [DecidableEq K] {chain : List (Node K V)} {k : K} {v : V}

/-- The value of the first node with the key. -/
def find (k : K) : List (Node K V) → Option V
  | [] => none
  | node :: rest => if node.key = k then some node.value else find k rest

/-- The first node with the key gets the value, if there is one. -/
def overwrite (k : K) (v : V) : List (Node K V) → Option (List (Node K V))
  | [] => none
  | node :: rest =>
      if node.key = k then some ({ node with value := v } :: rest)
      else (overwrite k v rest).map (node :: ·)

/-- The first node with the key is unlinked, if there is one. -/
def unlink (k : K) (chain : List (Node K V)) : List (Node K V) :=
  chain.eraseP fun node => node.key = k

omit [DecidableEq K] in
def keys (chain : List (Node K V)) : List K :=
  chain.map Node.key

theorem find_eq_none_iff : find k chain = none ↔ k ∉ keys chain := by
  induction chain with
  | nil => simp [find, keys]
  | cons node rest ih =>
      rw [find, keys, List.map_cons, List.mem_cons, not_or]
      split_ifs with hkey
      · simp [hkey]
      · rw [ih]
        exact ⟨fun h => ⟨fun heq => hkey heq.symm, h⟩, And.right⟩

theorem overwrite_eq_none_iff : overwrite k v chain = none ↔ k ∉ keys chain := by
  induction chain with
  | nil => simp [overwrite, keys]
  | cons node rest ih =>
      rw [overwrite, keys, List.map_cons, List.mem_cons, not_or]
      split_ifs with hkey
      · simp [hkey]
      · rw [Option.map_eq_none_iff, ih]
        exact ⟨fun h => ⟨fun heq => hkey heq.symm, h⟩, And.right⟩

theorem keys_overwrite {chain' : List (Node K V)} (h : overwrite k v chain = some chain') :
    keys chain' = keys chain := by
  induction chain generalizing chain' with
  | nil => cases h
  | cons node rest ih =>
      rw [overwrite] at h
      split_ifs at h with hkey
      · obtain rfl := Option.some.inj h
        rfl
      · obtain ⟨rest', hrest, rfl⟩ := Option.map_eq_some_iff.mp h
        exact congrArg (node.key :: ·) (ih hrest)

theorem find_overwrite {chain' : List (Node K V)} (h : overwrite k v chain = some chain') (k' : K) :
    find k' chain' = if k = k' then some v else find k' chain := by
  induction chain generalizing chain' with
  | nil => cases h
  | cons node rest ih =>
      rw [overwrite] at h
      split_ifs at h with hkey
      · obtain rfl := Option.some.inj h
        simp only [find, hkey]
        split_ifs <;> rfl
      · obtain ⟨rest', hrest, rfl⟩ := Option.map_eq_some_iff.mp h
        simp only [find]
        split_ifs with hnode hk
        · exact absurd (hnode.trans hk.symm) hkey
        · rfl
        · rw [ih hrest, if_pos ‹_›]
        · rw [ih hrest, if_neg ‹_›]

theorem keys_unlink (k : K) (chain : List (Node K V)) :
    keys (unlink k chain) = (keys chain).erase k :=
  SlotTable.map_eraseP Node.key k chain

theorem find_unlink_of_ne {k' : K} (hne : k ≠ k') (chain : List (Node K V)) :
    find k' (unlink k chain) = find k' chain := by
  induction chain with
  | nil => rfl
  | cons node rest ih =>
      by_cases hkey : node.key = k
      · rw [unlink, List.eraseP_cons_of_pos (by simpa using hkey), find,
          if_neg fun h => hne (hkey.symm.trans h)]
      · rw [unlink, List.eraseP_cons_of_neg (by simpa using hkey), find, find]
        exact if_congr Iff.rfl rfl ih

theorem nodup_keys_unlink (h : (keys chain).Nodup) (k : K) : (keys (unlink k chain)).Nodup := by
  rw [keys_unlink]
  exact h.erase k

/-- Where no key is there twice, unlinking takes the value of the key away. -/
theorem find_unlink (h : (keys chain).Nodup) (k k' : K) :
    find k' (unlink k chain) = if k = k' then none else find k' chain := by
  split_ifs with hkey
  · subst hkey
    rw [find_eq_none_iff, keys_unlink]
    exact h.not_mem_erase
  · exact find_unlink_of_ne hkey chain

end Chain

section Table

variable {K : Type u} {V : Type v} {n : Nat} {chain : List (Node K V)} {i : Fin n}

/-- Every node is in the chain of its key. -/
def Located (index : K → Fin n) (chains : Fin n → List (Node K V)) : Prop :=
  ∀ i, ∀ node ∈ chains i, index node.key = i

def nodes (chains : Fin n → List (Node K V)) : List (Node K V) :=
  (List.finRange n).flatMap chains

variable {index : K → Fin n} {chains : Fin n → List (Node K V)}

theorem Located.index_eq (h : Located index chains) {k : K} (hk : k ∈ keys (chains i)) :
    index k = i := by
  obtain ⟨node, hnode, rfl⟩ := List.mem_map.mp hk
  exact h i node hnode

/-- A chain whose keys belong to it may be written. -/
theorem Located.put (h : Located index chains) (hchain : ∀ k ∈ keys chain, index k = i) :
    Located index (Function.update chains i chain) := by
  intro j node hnode
  by_cases hj : j = i
  · subst hj
    rw [Function.update_self] at hnode
    exact hchain node.key (List.mem_map.mpr ⟨node, hnode, rfl⟩)
  · rw [Function.update_of_ne hj] at hnode
    exact h j node hnode

theorem forall_update (P : List (Node K V) → Prop)
    (h : ∀ i, P (chains i)) (hchain : P chain) (j : Fin n) :
    P (Function.update chains i chain j) := by
  by_cases hj : j = i
  · subst hj
    rwa [Function.update_self]
  · rw [Function.update_of_ne hj]
    exact h j

/-- What is read of a key in its chain, after a chain has been written for one key. -/
theorem read_update [DecidableEq K] {α : Type w} (read : K → List (Node K V) → α) {key : K} {a : α}
    (hread : ∀ k, read k chain = if key = k then a else read k (chains (index key))) (k : K) :
    read k (Function.update chains (index key) chain (index k)) =
      if key = k then a else read k (chains (index k)) := by
  by_cases hsame : index k = index key
  · rw [hsame, Function.update_self, hread]
  · have hkey : key ≠ k := fun h => hsame (h ▸ rfl)
    rw [Function.update_of_ne hsame, if_neg hkey]

/-- Where no chain has a key twice, the table has none twice. -/
theorem Located.nodup_nodes (h : Located index chains) (hnodup : ∀ i, (keys (chains i)).Nodup) :
    (keys (nodes chains)).Nodup := by
  have hkeys : keys (nodes chains) = (List.finRange n).flatMap fun i => keys (chains i) :=
    List.map_flatMap ..
  rw [hkeys, List.nodup_flatMap]
  refine ⟨fun i _ => hnodup i, (List.nodup_finRange n).imp fun {i j} hij => ?_⟩
  intro k hi hj
  exact hij ((h.index_eq hi).symm.trans (h.index_eq hj))

end Table

end Libnv.Chains
