import Libnv.Base.HashTable

/-!
# The dictionary

`src/base/data/nv_dict.c`: a table of 100 chains.  `nv_dict_insert` puts a node in
front without looking for the key, and `nv_dict_remove` unlinks one node, so a key
that was inserted twice has a value again after its removal.

Values are pointers that are not NULL; NULL is `none`.
-/

namespace Libnv.Dictionary

open Chains CText Transition

universe u

section Functions

def tableSize : Nat := 100

/-- `nv_dict_t`. -/
structure Dict (V : Type u) where
  buckets : Fin tableSize → List (Node CString V)

variable {V : Type u}

/-- `hash`, with the same loop as that of the hash table. -/
def hash (key : CString) : Fin tableSize :=
  ⟨(Hash.hashLoop key).toNat % tableSize, Nat.mod_lt _ (Nat.zero_lt_succ 99)⟩

def nvDictInit : Dict V where
  buckets := fun _ => []

def nvDictInsert (dict : Dict V) (key : CString) (value : V) : Dict V where
  buckets := Function.update dict.buckets (hash key) (⟨key, value⟩ :: dict.buckets (hash key))

def nvDictLookup (dict : Dict V) (key : CString) : Option V :=
  find key (dict.buckets (hash key))

def nvDictRemove (dict : Dict V) (key : CString) : Dict V where
  buckets := Function.update dict.buckets (hash key) (unlink key (dict.buckets (hash key)))

def nvDictIsEmpty (dict : Dict V) : Bool :=
  (List.finRange tableSize).all fun i => (dict.buckets i).isEmpty

/-- One call. -/
def dictStep (dict : Dict V) : MapCall CString V → Dict V
  | .insert key value => nvDictInsert dict key value
  | .remove key => nvDictRemove dict key

def dictAfter (calls : List (MapCall CString V)) : Dict V :=
  run dictStep nvDictInit calls

end Functions

section Spec

variable {V : Type u}

/-- The dictionary after the calls answers as the map that they make. -/
structure IsMap (calls : List (MapCall CString V)) : Prop where
  lookup : ∀ k, nvDictLookup (dictAfter calls) k = lastValue k calls
  isEmpty : nvDictIsEmpty (dictAfter calls) = true ↔ ∀ k, lastValue k calls = none

/-- The number of insertions of `k` since its last removal. -/
def insertsSince (k : CString) (calls : List (MapCall CString V)) : Nat :=
  calls.foldl
    (fun n call =>
      match call with
      | .insert key _ => if key = k then n + 1 else n
      | .remove key => if key = k then 0 else n)
    0

/-- A removal finds one node of its key at most. -/
def findsOne (calls : List (MapCall CString V)) : MapCall CString V → Prop
  | .insert _ _ => True
  | .remove k => insertsSince k calls ≤ 1

end Spec

section Invariant

variable {V : Type u} {calls : List (MapCall CString V)}

/-- What holds as long as every removal has found one node of its key at most. -/
structure DictInv (calls : List (MapCall CString V)) : Prop where
  located : Located hash (dictAfter calls).buckets
  count : ∀ k, (keys ((dictAfter calls).buckets (hash k))).count k = insertsSince k calls
  lookup : ∀ k, nvDictLookup (dictAfter calls) k = lastValue k calls

theorem dictAfter_concat (calls : List (MapCall CString V)) (call : MapCall CString V) :
    dictAfter (calls ++ [call]) = dictStep (dictAfter calls) call :=
  run_append ..

theorem nvDictIsEmpty_iff {dict : Dict V} (h : Located hash dict.buckets) :
    nvDictIsEmpty dict = true ↔ ∀ k, nvDictLookup dict k = none := by
  simp only [nvDictIsEmpty, List.all_eq_true, List.isEmpty_iff, nvDictLookup, find_eq_none_iff]
  constructor
  · intro hempty k
    rw [hempty _ (List.mem_finRange _)]
    exact List.not_mem_nil
  · intro hnone i _
    rw [List.eq_nil_iff_forall_not_mem]
    intro node hnode
    apply hnone node.key
    rw [h i node hnode]
    exact List.mem_map.mpr ⟨node, hnode, rfl⟩

theorem isMap_of_lookup (hlocated : Located hash (dictAfter calls).buckets)
    (hlookup : ∀ k, nvDictLookup (dictAfter calls) k = lastValue k calls) : IsMap calls where
  lookup := hlookup
  isEmpty := by
    rw [nvDictIsEmpty_iff hlocated]
    exact forall_congr' fun k => by rw [hlookup k]

theorem insertsSince_insert (k key : CString) (value : V) (calls : List (MapCall CString V)) :
    insertsSince k (calls ++ [.insert key value]) =
      if key = k then insertsSince k calls + 1 else insertsSince k calls :=
  List.foldl_append

theorem insertsSince_remove (k key : CString) (calls : List (MapCall CString V)) :
    insertsSince k (calls ++ [.remove key]) =
      if key = k then 0 else insertsSince k calls :=
  List.foldl_append

theorem dictInv_nil : DictInv ([] : List (MapCall CString V)) where
  located := fun _ _ hnode => absurd hnode List.not_mem_nil
  count := fun _ => rfl
  lookup := fun _ => rfl

section Calls

variable (h : DictInv calls)
include h

theorem DictInv.insert (key : CString) (value : V) : DictInv (calls ++ [.insert key value]) where
  located := by
    rw [dictAfter_concat]
    refine h.located.put fun k hk => ?_
    rcases List.mem_cons.mp hk with rfl | hk
    · rfl
    · exact h.located.index_eq hk
  count := by
    intro k
    have hread (k : CString) :
        (key :: keys ((dictAfter calls).buckets (hash key))).count k =
          if key = k then insertsSince key calls + 1
          else (keys ((dictAfter calls).buckets (hash key))).count k := by
      split_ifs with hkey
      · rw [← h.count, hkey, List.count_cons_self]
      · exact List.count_cons_of_ne hkey
    rw [dictAfter_concat, insertsSince_insert, ← h.count k]
    refine (read_update (fun k chain => (keys chain).count k) hread k).trans ?_
    split_ifs with hkey
    · rw [hkey, h.count]
    · rfl
  lookup := by
    intro k
    rw [dictAfter_concat, lastValue_concat, ← h.lookup k]
    exact read_update find (fun k => rfl) k

/-- One node of the key is unlinked. -/
theorem DictInv.lookup_remove (key k : CString) :
    nvDictLookup (dictAfter (calls ++ [.remove key])) k =
      if key = k then find key (unlink key ((dictAfter calls).buckets (hash key)))
      else lastValue k calls := by
  rw [dictAfter_concat, ← h.lookup k]
  refine read_update find (fun k => ?_) k
  split_ifs with hkey
  · rw [hkey]
  · exact find_unlink_of_ne hkey _

theorem DictInv.find_unlink_iff (key : CString) :
    find key (unlink key ((dictAfter calls).buckets (hash key))) = none ↔
      insertsSince key calls ≤ 1 := by
  rw [find_eq_none_iff, keys_unlink, ← List.count_eq_zero, List.count_erase_self, h.count]
  omega

theorem DictInv.located_remove (key : CString) :
    Located hash (dictAfter (calls ++ [.remove key])).buckets := by
  rw [dictAfter_concat]
  refine h.located.put fun k hk => ?_
  rw [keys_unlink] at hk
  exact h.located.index_eq (List.mem_of_mem_erase hk)

theorem DictInv.remove {key : CString} (hone : insertsSince key calls ≤ 1) :
    DictInv (calls ++ [.remove key]) where
  located := h.located_remove key
  count := by
    intro k
    have hread (k : CString) :
        (keys (unlink key ((dictAfter calls).buckets (hash key)))).count k =
          if key = k then 0 else (keys ((dictAfter calls).buckets (hash key))).count k := by
      rw [keys_unlink]
      split_ifs with hkey
      · rw [← hkey, List.count_erase_self, h.count]
        omega
      · exact List.count_erase_of_ne (Ne.symm hkey)
    rw [dictAfter_concat, insertsSince_remove, ← h.count k]
    exact read_update (fun k chain => (keys chain).count k) hread k
  lookup := by
    intro k
    rw [h.lookup_remove, (h.find_unlink_iff key).mpr hone, lastValue_concat]
    rfl

/-- A call after such a history leads to a map exactly if it goes on so. -/
theorem DictInv.isMap_concat_iff (call : MapCall CString V) :
    IsMap (calls ++ [call]) ↔ findsOne calls call := by
  cases call with
  | insert key value =>
      have hnext := h.insert key value
      exact iff_of_true (isMap_of_lookup hnext.located hnext.lookup) trivial
  | remove key =>
      constructor
      · intro hmap
        have hnone := hmap.lookup key
        rw [h.lookup_remove, if_pos rfl, lastValue_concat] at hnone
        exact (h.find_unlink_iff key).mp (hnone.trans (if_pos rfl))
      · intro hone
        have hnext := h.remove hone
        exact isMap_of_lookup hnext.located hnext.lookup

end Calls

theorem DictInv.concat (calls : List (MapCall CString V)) (call : MapCall CString V)
    (h : DictInv calls) (hone : findsOne calls call) : DictInv (calls ++ [call]) := by
  cases call with
  | insert key value => exact h.insert key value
  | remove key => exact h.remove hone

end Invariant

/--
For all calls: the dictionary answers as a map after each of them exactly if every
removal of a key comes after one insertion of it at most since the removal before.
-/
theorem nvDict_isMap_iff {V : Type u} (calls : List (MapCall CString V)) :
    (∀ pre, pre <+: calls → IsMap pre) ↔
      ∀ pre key, pre ++ [.remove key] <+: calls → insertsSince key pre ≤ 1 := by
  have hnil : IsMap ([] : List (MapCall CString V)) :=
    isMap_of_lookup dictInv_nil.located dictInv_nil.lookup
  rw [forall_prefix_iff dictInv_nil hnil DictInv.concat fun _ call h => h.isMap_concat_iff call]
  constructor
  · intro hone pre key hpre
    exact hone pre _ hpre
  · intro hone pre call hpre
    cases call with
    | insert key value => trivial
    | remove key => exact hone pre key hpre

/-- A key that is inserted twice and removed once has its first value again. -/
theorem removed_key_found :
    let calls : List (MapCall CString Nat) :=
      [.insert (lit "k") 1, .insert (lit "k") 2, .remove (lit "k")]
    nvDictLookup (dictAfter calls) (lit "k") = some 1 ∧ lastValue (lit "k") calls = none ∧
      ¬ IsMap calls := by
  have hfound : nvDictLookup (dictAfter [.insert (lit "k") 1, .insert (lit "k") 2,
      .remove (lit "k")]) (lit "k") = some 1 := by
    decide
  refine ⟨hfound, by decide, fun hmap => ?_⟩
  exact absurd (hfound.symm.trans (hmap.lookup (lit "k"))) (by decide)

end Libnv.Dictionary
