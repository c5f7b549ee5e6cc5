import Mathlib.Data.List.Nodup
import Libnv.Lib.SlotTable
import Libnv.Lib.Transition

/-!
# The graph

`src/base/data/nv_graph.c`.  A vertex has an identifier and the list of its edges; an
edge names the vertex it leads to by the identifier only.  No function looks at more
than the first vertex with an identifier, and none looks whether an edge leads
anywhere.
-/

namespace Libnv.Graph

open Transition

/-- `nv_vertex_t` with the `dest` of its edges; `next` is the rest of the list. -/
structure Vertex where
  id : Int
  edges : List Int
deriving DecidableEq

abbrev Vertices := List Vertex

def nvGraphInit : Vertices := []

/-- The search for the first vertex with the identifier, and a change of its edges. -/
def changeEdges (src : Int) (change : List Int → List Int) : Vertices → Vertices
  | [] => []
  | vertex :: rest =>
      if vertex.id = src then { vertex with edges := change vertex.edges } :: rest
      else vertex :: changeEdges src change rest

def nvGraphAddVertex (graph : Vertices) (id : Int) : Vertices :=
  { id := id, edges := [] } :: graph

def nvGraphAddEdge (graph : Vertices) (src dest : Int) : Vertices :=
  changeEdges src (dest :: ·) graph

/-- The first vertex with the identifier goes, with its edges. -/
def nvGraphRemoveVertex (graph : Vertices) (id : Int) : Vertices :=
  graph.eraseP fun vertex => vertex.id = id

/-- The first edge to `dest` goes. -/
def nvGraphRemoveEdge (graph : Vertices) (src dest : Int) : Vertices :=
  changeEdges src (·.erase dest) graph

inductive GraphCall where
  | addVertex (id : Int)
  | addEdge (src dest : Int)
  | removeVertex (id : Int)
  | removeEdge (src dest : Int)
deriving DecidableEq

/-- One call. -/
def graphStep (graph : Vertices) : GraphCall → Vertices
  | .addVertex id => nvGraphAddVertex graph id
  | .addEdge src dest => nvGraphAddEdge graph src dest
  | .removeVertex id => nvGraphRemoveVertex graph id
  | .removeEdge src dest => nvGraphRemoveEdge graph src dest

/-- The identifiers of the vertices. -/
def ids (graph : Vertices) : List Int :=
  graph.map Vertex.id

/-- Vertices have their own identifiers, and every edge leads to one of them. -/
structure Sound (graph : Vertices) : Prop where
  distinct : (ids graph).Nodup
  dest : ∀ vertex ∈ graph, ∀ dest ∈ vertex.edges, dest ∈ ids graph

/-- Neither the vertex nor an edge from it or to it is in the graph. -/
structure Gone (graph : Vertices) (id : Int) : Prop where
  vertex : id ∉ ids graph
  edges : ∀ vertex ∈ graph, vertex.id ≠ id ∧ id ∉ vertex.edges

/-- What is to hold after a call. -/
def Kept (graph : Vertices) (call : GraphCall) : Prop :=
  Sound (graphStep graph call) ∧
    ∀ id, call = .removeVertex id → Gone (graphStep graph call) id

/-- The calls that the functions leave to the caller to avoid are not made. -/
def respects (graph : Vertices) : GraphCall → Prop
  | .addVertex id => id ∉ ids graph
  | .addEdge src dest => src ∈ ids graph → dest ∈ ids graph
  | .removeVertex id => ∀ vertex ∈ graph, vertex.id ≠ id → id ∉ vertex.edges
  | .removeEdge _ _ => True

section Change

variable {src : Int} {change : List Int → List Int} {graph : Vertices}

theorem ids_changeEdges (src : Int) (change : List Int → List Int) (graph : Vertices) :
    ids (changeEdges src change graph) = ids graph := by
  induction graph with
  | nil => rfl
  | cons vertex rest ih =>
      rw [changeEdges]
      split_ifs
      · rfl
      · exact congrArg (vertex.id :: ·) ih

theorem mem_changeEdges {vertex : Vertex} (h : vertex ∈ changeEdges src change graph) :
    vertex ∈ graph ∨ ∃ old ∈ graph, old.id = src ∧ vertex.edges = change old.edges := by
  induction graph with
  | nil => exact Or.inl h
  | cons first rest ih =>
      rw [changeEdges] at h
      split_ifs at h with hsrc
      · rcases List.mem_cons.mp h with rfl | h
        · exact Or.inr ⟨first, List.mem_cons_self, hsrc, rfl⟩
        · exact Or.inl (List.mem_cons_of_mem first h)
      · rcases List.mem_cons.mp h with rfl | h
        · exact Or.inl List.mem_cons_self
        · rcases ih h with h | ⟨old, hold, hold'⟩
          · exact Or.inl (List.mem_cons_of_mem first h)
          · exact Or.inr ⟨old, List.mem_cons_of_mem first hold, hold'⟩

theorem exists_mem_changeEdges (h : src ∈ ids graph) (change : List Int → List Int) :
    ∃ vertex ∈ changeEdges src change graph, ∃ edges, vertex.edges = change edges := by
  induction graph with
  | nil => cases h
  | cons first rest ih =>
      rw [changeEdges]
      split_ifs with hsrc
      · exact ⟨_, List.mem_cons_self, first.edges, rfl⟩
      · have hrest : src ∈ ids rest := (List.mem_cons.mp h).resolve_left fun heq => hsrc heq.symm
        obtain ⟨vertex, hmem, hedges⟩ := ih hrest
        exact ⟨vertex, List.mem_cons_of_mem first hmem, hedges⟩

/-- Edges that lead to vertices may be put in the place of others. -/
theorem Sound.changeEdges (h : Sound graph)
    (hchange : ∀ old ∈ graph, old.id = src → ∀ dest ∈ change old.edges, dest ∈ ids graph) :
    Sound (changeEdges src change graph) where
  distinct := by
    rw [ids_changeEdges]
    exact h.distinct
  dest := by
    intro vertex hvertex dest hdest
    rw [ids_changeEdges]
    rcases mem_changeEdges hvertex with hvertex | ⟨old, hold, hsrc, hedges⟩
    · exact h.dest vertex hvertex dest hdest
    · rw [hedges] at hdest
      exact hchange old hold hsrc dest hdest

end Change

section Calls

variable {graph : Vertices}

theorem Sound.addVertex_iff (h : Sound graph) (id : Int) :
    Sound (nvGraphAddVertex graph id) ↔ id ∉ ids graph := by
  refine ⟨fun hnext => (List.nodup_cons.mp hnext.distinct).1, fun hnew => ⟨?_, ?_⟩⟩
  · exact List.nodup_cons.mpr ⟨hnew, h.distinct⟩
  · intro vertex hvertex dest hdest
    rcases List.mem_cons.mp hvertex with rfl | hvertex
    · cases hdest
    · exact List.mem_cons_of_mem id (h.dest vertex hvertex dest hdest)

theorem Sound.addEdge_iff (h : Sound graph) (src dest : Int) :
    Sound (nvGraphAddEdge graph src dest) ↔ (src ∈ ids graph → dest ∈ ids graph) := by
  constructor
  · intro hnext hsrc
    obtain ⟨vertex, hvertex, edges, hedges⟩ := exists_mem_changeEdges hsrc (dest :: ·)
    have hdest := hnext.dest vertex hvertex dest (by rw [hedges]; exact List.mem_cons_self)
    rwa [nvGraphAddEdge, ids_changeEdges] at hdest
  · intro hdest
    refine h.changeEdges fun old hold hsrc d hd => ?_
    rcases List.mem_cons.mp hd with rfl | hd
    · exact hdest (List.mem_map.mpr ⟨old, hold, hsrc⟩)
    · exact h.dest old hold d hd

theorem Sound.removeEdge (h : Sound graph) (src dest : Int) :
    Sound (nvGraphRemoveEdge graph src dest) :=
  h.changeEdges fun old hold _ d hd => h.dest old hold d (List.mem_of_mem_erase hd)

theorem ids_removeVertex (graph : Vertices) (id : Int) :
    ids (nvGraphRemoveVertex graph id) = (ids graph).erase id :=
  SlotTable.map_eraseP Vertex.id id graph

theorem Sound.mem_removeVertex_iff (h : Sound graph) (id : Int) (vertex : Vertex) :
    vertex ∈ nvGraphRemoveVertex graph id ↔ vertex ∈ graph ∧ vertex.id ≠ id := by
  constructor
  · intro hvertex
    refine ⟨List.mem_of_mem_eraseP hvertex, fun hid => ?_⟩
    have hmem : vertex.id ∈ ids (nvGraphRemoveVertex graph id) := List.mem_map_of_mem hvertex
    rw [ids_removeVertex, hid] at hmem
    exact h.distinct.not_mem_erase hmem
  · rintro ⟨hvertex, hid⟩
    exact (List.mem_eraseP_of_neg (by simpa using hid)).mpr hvertex

theorem Sound.removeVertex_iff (h : Sound graph) (id : Int) :
    Sound (nvGraphRemoveVertex graph id) ∧ Gone (nvGraphRemoveVertex graph id) id ↔
      ∀ vertex ∈ graph, vertex.id ≠ id → id ∉ vertex.edges := by
  constructor
  · rintro ⟨-, hgone⟩ vertex hvertex hid
    exact (hgone.edges vertex ((h.mem_removeVertex_iff id vertex).mpr ⟨hvertex, hid⟩)).2
  · intro hfree
    refine ⟨⟨?_, ?_⟩, ⟨?_, ?_⟩⟩
    · rw [ids_removeVertex]
      exact h.distinct.erase id
    · intro vertex hvertex dest hdest
      obtain ⟨hvertex, hid⟩ := (h.mem_removeVertex_iff id vertex).mp hvertex
      have hne : dest ≠ id := fun heq => hfree vertex hvertex hid (heq ▸ hdest)
      rw [ids_removeVertex]
      exact (List.mem_erase_of_ne hne).mpr (h.dest vertex hvertex dest hdest)
    · rw [ids_removeVertex]
      exact h.distinct.not_mem_erase
    · intro vertex hvertex
      obtain ⟨hvertex, hid⟩ := (h.mem_removeVertex_iff id vertex).mp hvertex
      exact ⟨hid, hfree vertex hvertex hid⟩

/-- Step lemma: a call keeps the graph sound exactly if it respects it. -/
theorem Sound.kept_iff (h : Sound graph) (call : GraphCall) :
    Kept graph call ↔ respects graph call := by
  have hother (hcall : ∀ id, call ≠ .removeVertex id) :
      Kept graph call ↔ Sound (graphStep graph call) :=
    ⟨And.left, fun hnext => ⟨hnext, fun id heq => absurd heq (hcall id)⟩⟩
  cases call with
  | addVertex id => exact (hother (by simp)).trans (h.addVertex_iff id)
  | addEdge src dest => exact (hother (by simp)).trans (h.addEdge_iff src dest)
  | removeEdge src dest =>
      exact (hother (by simp)).trans (iff_of_true (h.removeEdge src dest) trivial)
  | removeVertex id =>
      refine Iff.trans ?_ (h.removeVertex_iff id)
      refine and_congr_right fun _ => ⟨fun hgone => hgone id rfl, fun hgone id' heq => ?_⟩
      obtain rfl := GraphCall.removeVertex.inj heq
      exact hgone

end Calls

/--
For all calls with any identifiers: after each of them the identifiers are distinct,
every edge leads to a vertex, and a removed vertex is gone with all edges from it and
to it, exactly if no vertex is added a second time, no edge is added to a vertex that
is not there, and no vertex is removed to which another one has an edge.
-/
theorem nvGraph_kept_iff (calls : List GraphCall) :
    Along graphStep Kept nvGraphInit calls ↔ Along graphStep respects nvGraphInit calls := by
  have hinit : Sound nvGraphInit := ⟨List.nodup_nil, fun _ hvertex => absurd hvertex List.not_mem_nil⟩
  refine along_iff_along_of_inv hinit ?_ (fun _ call h => h.kept_iff call) calls
  intro graph call h hrespects
  exact ((h.kept_iff call).mpr hrespects).1

/-- Two vertices with one identifier, an edge to no vertex, and an edge to a removed vertex. -/
theorem nvGraph_dangling :
    ids (run graphStep nvGraphInit [.addVertex 1, .addVertex 1]) = [1, 1] ∧
      run graphStep nvGraphInit [.addVertex 1, .addEdge 1 2] = [{ id := 1, edges := [2] }] ∧
      run graphStep nvGraphInit [.addVertex 1, .addVertex 2, .addEdge 1 2, .removeVertex 2] =
        [{ id := 1, edges := [2] }] ∧
      ¬ Sound [{ id := 1, edges := [2] }] := by
  refine ⟨by decide, by decide, by decide, fun h => ?_⟩
  exact absurd (h.dest { id := 1, edges := [2] } List.mem_cons_self 2 (by decide)) (by decide)

end Libnv.Graph
