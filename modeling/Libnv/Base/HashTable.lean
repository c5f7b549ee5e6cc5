import Libnv.Lib.Chains
import Libnv.Lib.CText

/-!
# The hash table

`src/base/data/nv_hash_table.c`.  The table has `size` chains; a key is looked up in
the one that its hash gives.  `char` is signed, as on the usual targets.  Keys and
values are copied, and allocation is taken to succeed.
-/

namespace Libnv.Hash

open Chains CText Transition

section Functions

def hashLoop (key : CString) : UInt32 :=
  key.bytes.foldl (fun hash c => (hash <<< 5) + c.toInt8.toInt32.toUInt32) 0

/-- `next` is the rest of the chain. -/
abbrev HashNode := Node CString CString

/-- `HashTable` with at least one chain. -/
structure HashTable (size : Nat) where
  positive : 0 < size
  nodes : Fin size → List HashNode

variable {size : Nat}

def hash (table : HashTable size) (key : CString) : Fin size :=
  ⟨(hashLoop key).toNat % size, Nat.mod_lt _ table.positive⟩

/-- `table->nodes[index] = list`. -/
def HashTable.put (table : HashTable size) (index : Fin size) (list : List HashNode) :
    HashTable size :=
  { table with nodes := Function.update table.nodes index list }

def nvHashTableCreate (size : Nat) (positive : 0 < size) : HashTable size where
  positive := positive
  nodes := fun _ => []

/-- The value of the key is replaced, or a node put in front. -/
def nvHashTableInsert (table : HashTable size) (key value : CString) : HashTable size :=
  let index := hash table key
  match overwrite key value (table.nodes index) with
  | some list => table.put index list
  | none => table.put index (⟨key, value⟩ :: table.nodes index)

def nvHashTableFind (table : HashTable size) (key : CString) : Option CString :=
  find key (table.nodes (hash table key))

def nvHashTableDelete (table : HashTable size) (key : CString) : HashTable size :=
  let index := hash table key
  table.put index (unlink key (table.nodes index))

/-- One call. -/
def hashTableStep (table : HashTable size) : MapCall CString CString → HashTable size
  | .insert key value => nvHashTableInsert table key value
  | .remove key => nvHashTableDelete table key

end Functions

section Invariant

variable {size : Nat} {table : HashTable size}

/-- Every key is in the chain of its hash, and in one node of it at most. -/
structure TableInv (table : HashTable size) : Prop where
  located : Located (hash table) table.nodes
  nodup : ∀ i, (keys (table.nodes i)).Nodup

theorem tableInv_create (positive : 0 < size) : TableInv (nvHashTableCreate size positive) where
  located := fun _ _ hnode => absurd hnode List.not_mem_nil
  nodup := fun _ => List.nodup_nil

theorem TableInv.put (h : TableInv table) {key : CString} {list : List HashNode}
    (hkeys : ∀ k ∈ keys list, hash table k = hash table key) (hnodup : (keys list).Nodup) :
    TableInv (table.put (hash table key) list) where
  located := h.located.put hkeys
  nodup := forall_update (fun chain => (keys chain).Nodup) h.nodup hnodup

theorem nvHashTableInsert_spec (h : TableInv table) (key value : CString) :
    TableInv (nvHashTableInsert table key value) ∧
      ∀ k, nvHashTableFind (nvHashTableInsert table key value) k =
        if key = k then some value else nvHashTableFind table k := by
  unfold nvHashTableInsert
  dsimp only
  have hchain : ∀ k ∈ keys (table.nodes (hash table key)), hash table k = hash table key :=
    fun k hk => h.located.index_eq hk
  cases hover : overwrite key value (table.nodes (hash table key)) with
  | some list =>
      have hkeys := keys_overwrite hover
      refine ⟨h.put ?_ ?_, read_update find (find_overwrite hover)⟩
      · rwa [hkeys]
      · rw [hkeys]
        exact h.nodup _
  | none =>
      have hnew := overwrite_eq_none_iff.mp hover
      refine ⟨h.put ?_ (List.nodup_cons.mpr ⟨hnew, h.nodup _⟩), read_update find fun k => rfl⟩
      intro k hk
      rcases List.mem_cons.mp hk with rfl | hk
      · rfl
      · exact hchain k hk

theorem nvHashTableDelete_spec (h : TableInv table) (key : CString) :
    TableInv (nvHashTableDelete table key) ∧
      ∀ k, nvHashTableFind (nvHashTableDelete table key) k =
        if key = k then none else nvHashTableFind table k := by
  refine ⟨h.put ?_ (nodup_keys_unlink (h.nodup _) key), read_update find ?_⟩
  · intro k hk
    rw [keys_unlink] at hk
    exact h.located.index_eq (List.mem_of_mem_erase hk)
  · exact find_unlink (h.nodup _) key

/-- Step lemma: one call changes the answer for its own key, as it says. -/
theorem hashTableStep_spec (h : TableInv table) (call : MapCall CString CString) :
    TableInv (hashTableStep table call) ∧
      ∀ k, nvHashTableFind (hashTableStep table call) k =
        if call.key = k then call.value? else nvHashTableFind table k := by
  cases call with
  | insert key value => exact nvHashTableInsert_spec h key value
  | remove key => exact nvHashTableDelete_spec h key

end Invariant

/--
For every size and all calls: each key is in one node at most, in the chain of its
hash, and the answer for a key is the value of its last insertion, unless it has been
deleted since.
-/
theorem nvHashTable_isMap
    {size : Nat}
    (positive : 1 ≤ size)
    (calls : List (MapCall CString CString)) :
    let table := run hashTableStep (nvHashTableCreate size positive) calls
    (keys (nodes table.nodes)).Nodup ∧ Located (hash table) table.nodes ∧
      ∀ k, nvHashTableFind table k = lastValue k calls := by
  intro table
  have hkeep : ∀ (s : HashTable size) call, TableInv s → TableInv (hashTableStep s call) :=
    fun _ call h => (hashTableStep_spec h call).1
  have hinv : TableInv table := run_invariant hkeep (tableInv_create positive) calls
  refine ⟨hinv.located.nodup_nodes hinv.nodup, hinv.located, fun k => ?_⟩
  exact lastValue_run hkeep (fun _ call k h => (hashTableStep_spec h call).2 k)
    (tableInv_create positive) (fun _ => rfl) calls k

/-- Two keys in one chain, one of them deleted. -/
theorem nvHashTable_isMap_collision :
    let table := run hashTableStep (nvHashTableCreate 1 (by decide))
      [.insert (lit "a") (lit "1"), .insert (lit "b") (lit "2"), .remove (lit "a")]
    nvHashTableFind table (lit "b") = some (lit "2") := by
  intro table
  rw [(nvHashTable_isMap (by decide) _).2.2 (lit "b")]
  decide

end Libnv.Hash
