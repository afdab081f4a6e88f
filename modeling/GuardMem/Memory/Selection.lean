import GuardMem.Lib.Walk
import GuardMem.Memory.Neo4j

/-! The graph a server is bound to, and what one hop from an entity reads of it.

    CORRECT: both backends answer with the live edges that leave the entity, whoever wrote them
    (`neighbors_one`): on the first hop the tenant the durable backend scopes by is the entity's own, and
    the in-process one walks target by target. -/

namespace GuardMem

open Lib.Table

/-- The live edges leaving an entity, each assertion once. -/
def outgoing (entity : EntityId) (edges : List Edge) : List Edge :=
  (edges.filter fun e => e.subject_id == entity && e.valid_to.isNone).foldl
    (fun found e => insertNew Edge.assertion_id e found) []

/-- `BoundGraph`: the store `settings.graph_backend` names. -/
inductive BoundGraph (dumps : Json → String) where
  | networkx (g : { g : NetworkX.MultiDiGraph // NetworkX.Kept dumps g })
  | neo4j (g : { g : Neo4j.Graph // Neo4j.Kept g })

namespace BoundGraph

variable {dumps : Json → String}

/-- Whether the graph survives this process. -/
def durable : BoundGraph dumps → Bool
  | networkx _ => false
  | neo4j _ => true

def neighbors (entity : EntityId) (hops : ℕ) : BoundGraph dumps → Except Exc (List Edge)
  | networkx g => .ok (NetworkX.neighbors entity hops g.1)
  | neo4j g => Neo4j.neighbors entity hops g.1

/-- Every edge the graph holds. -/
def edges : BoundGraph dumps → List Edge
  | networkx g => g.1.arcs.map NetworkX.Arc.edge
  | neo4j g => Neo4j.edges g.1

/-- The edges leaving an entity, as the backend walks them. -/
def leaving (entity : EntityId) : BoundGraph dumps → List Edge
  | networkx g => (g.1.out_edges entity).map NetworkX.Arc.edge
  | neo4j g => (Neo4j.edges g.1).filter fun e => e.subject_id == entity

end BoundGraph

variable {dumps : Json → String} {entity : EntityId}

/-! ### The backends' walks -/

/-- Where a walk goes on from an edge: a string names a node. -/
def Edge.leads (e : Edge) : Option String :=
  match e.object with
  | .str key => some key
  | _ => none

namespace NetworkX

def Walk.toLib (w : Walk) : Lib.Walk AssertionId Edge String := ⟨w.seen, w.found, w.following⟩

/-- The live edges out of a frontier. -/
def hop (g : MultiDiGraph) (frontier : List String) : List Edge :=
  frontier.flatMap fun node =>
    ((g.out_edges node).map Arc.edge).filter fun e => e.valid_to.isNone

variable {g : MultiDiGraph}

theorem foldl_follow (hk : Kept dumps g) : ∀ {arcs : List Arc} {w : Walk}, (∀ b ∈ arcs, b ∈ g.arcs) →
    (arcs.foldl follow w).toLib = ((arcs.map Arc.edge).filter fun e => e.valid_to.isNone).foldl
      (Lib.Walk.visit Edge.assertion_id Edge.leads) w.toLib
  | [], _, _ => rfl
  | b :: arcs, w, hin => by
      obtain ⟨-, htarget, hkey⟩ := hk.keyed b (hin b List.mem_cons_self)
      rw [List.foldl_cons, foldl_follow hk fun c hc => hin c (List.mem_cons_of_mem _ hc), List.map_cons,
        List.filter_cons]
      cases hv : b.edge.valid_to with
      | some t => simp [follow, hv]
      | none =>
          have hvisit : (follow w b).toLib =
              w.toLib.visit Edge.assertion_id Edge.leads b.edge := by
            by_cases hseen : b.edge.assertion_id ∈ w.seen
            · simp [follow, hv, hkey, Lib.Walk.visit, Walk.toLib, hseen]
            · rcases ho : b.edge.object with key | _ | _ | _
              · by_cases hold : key ∈ w.following <;>
                  simp [follow, hv, hkey, Lib.Walk.visit, Walk.toLib, hseen, htarget, Edge.leads, ho,
                    object_key, hold]
              all_goals
                simp [follow, hv, hkey, Lib.Walk.visit, Walk.toLib, hseen, Edge.leads, ho]
          rw [hvisit]
          rfl

theorem foldl_expand (hk : Kept dumps g) {frontier : List String} {w : Walk} :
    (frontier.foldl (expand g) w).toLib =
      (hop g frontier).foldl (Lib.Walk.visit Edge.assertion_id Edge.leads) w.toLib := by
  induction frontier generalizing w with
  | nil => rfl
  | cons node frontier ih =>
      rw [List.foldl_cons, ih, expand, foldl_follow hk fun b hb => (mem_out_edges.mp hb).1,
        ← List.foldl_append]
      rfl

/-- The backend's walk is the library's, over its live edges. -/
theorem rounds_eq (hk : Kept dumps g) : ∀ {n : ℕ} {frontier : List String} {w : Walk},
    rounds g n frontier w =
      Lib.Walk.rounds Edge.assertion_id Edge.leads (hop g) n frontier w.toLib
  | 0, _, _ => rfl
  | n + 1, frontier, w => by
      have hround := @foldl_expand dumps g hk frontier { w with following := [] }
      simp only [rounds, Lib.Walk.rounds]
      rw [show { w.toLib with following := [] } = ({ w with following := [] } : Walk).toLib from rfl,
        ← hround, rounds_eq hk]
      rfl

theorem neighbors_one (hk : Kept dumps g) :
    neighbors entity 1 g = outgoing entity ((g.out_edges entity).map Arc.edge) := by
  have hempty : Lib.Walk.Kept Edge.assertion_id (Walk.toLib {}) := by simp [Lib.Walk.Kept, Walk.toLib]
  rw [neighbors, rounds_eq hk, Lib.Walk.rounds_one hempty, outgoing]
  refine congrArg (List.foldl _ []) ?_
  rw [hop, List.flatMap_cons, List.flatMap_nil, List.append_nil]
  refine List.filter_congr fun e he => ?_
  obtain ⟨b, hb, rfl⟩ := List.mem_map.mp he
  obtain ⟨hb, hsource⟩ := mem_out_edges.mp hb
  simp [← (hk.keyed b hb).1, hsource]

end NetworkX

namespace Neo4j

theorem edge_from_legible {r : Rel} (h : (ObjectValue.ofJson r.object_json).isSome = true) :
    ∃ e, edge_from r = .ok e ∧ e.assertion_id = r.assertion_id ∧ e.subject_id = r.subject_id ∧
      e.valid_to = r.valid_to := by
  obtain ⟨object, hobject⟩ := Option.isSome_iff_exists.mp h
  rw [edge_from, hobject]
  exact ⟨_, rfl, rfl, rfl, rfl⟩

/-- Rows that can be read back are followed, each assertion once. -/
theorem follow_legible : ∀ {rows : List Rel} {w : Walk},
    (∀ r ∈ rows, (ObjectValue.ofJson r.object_json).isSome = true) →
    (∀ id, id ∈ w.seen ↔ id ∈ w.found.map Edge.assertion_id) →
    ∃ w', follow rows w = .ok w' ∧ w'.found =
      (rows.filterMap fun r => (edge_from r).toOption).foldl
        (fun found e => insertNew Edge.assertion_id e found) w.found
  | [], w, _, _ => ⟨w, rfl, rfl⟩
  | r :: rows, w, hrows, hseen => by
      obtain ⟨e, he, hid, -⟩ := edge_from_legible (hrows r List.mem_cons_self)
      have hrest : ∀ q ∈ rows, (ObjectValue.ofJson q.object_json).isSome = true :=
        fun q hq => hrows q (List.mem_cons_of_mem _ hq)
      rw [List.filterMap_cons_some (by rw [he]; rfl), List.foldl_cons]
      by_cases hold : e.assertion_id ∈ w.found.map Edge.assertion_id
      · have hmem := (hseen _).mpr hold
        rw [insertNew_old hold]
        obtain ⟨w', hw', hfound⟩ := follow_legible hrest hseen
        refine ⟨w', ?_, hfound⟩
        rw [follow, if_pos (by simpa [hid] using hmem), hw']
      · have hnot : r.assertion_id ∉ w.seen := fun h => hold ((hseen _).mp (hid ▸ h))
        rw [insertNew_new hold, follow, if_neg (by simpa using hnot), he]
        refine follow_legible hrest fun id => ?_
        rw [List.mem_cons, hseen, List.map_append, List.mem_append, or_comm, ← hid]
        simp

/-- The scope excludes nothing on the first hop: a node's tenant is that of every edge leaving it. -/
theorem HOP_one {g : Graph} (hk : Kept g) : HOP (tenant_of entity g) g [entity] =
    g.rels.filter fun r => r.source == entity && r.valid_to.isNone := by
  refine List.filter_congr fun r hr => ?_
  by_cases hs : r.source = entity
  · have hscope : (tenant_of entity g).all (· == r.tenant_id) = true := by
      rw [tenant_of]
      cases hnode : g.entity entity with
      | none => rfl
      | some held =>
          cases held with
          | none => rfl
          | some t => simpa using (hk.held r hr t (by rw [hs, hnode])).symm
    simp [hs, hscope]
  · simp [hs]

theorem neighbors_one {g : Graph} (hk : Kept g) :
    neighbors entity 1 g = .ok (outgoing entity (edges g)) := by
  have hrows : ∀ r ∈ HOP (tenant_of entity g) g [entity],
      (ObjectValue.ofJson r.object_json).isSome = true := fun r hr =>
    hk.legible r (List.mem_of_mem_filter hr)
  obtain ⟨w, hw, hfound⟩ := follow_legible (w := {}) hrows (by simp)
  have hone : neighbors entity 1 g = .ok w.found := by
    simp only [neighbors, rounds, hw, bind, Except.bind, ite_self]
  rw [hone, hfound, HOP_one hk, outgoing, edges]
  refine congrArg (fun es => Except.ok (List.foldl _ [] es)) ?_
  rw [List.filter_filterMap, List.filterMap_filter]
  refine List.filterMap_congr fun r hr => ?_
  obtain ⟨e, he, -, hs, hv⟩ := edge_from_legible (hk.legible r hr)
  rw [he, hk.subjects r hr]
  by_cases hin : (r.subject_id == entity && r.valid_to.isNone) = true
  · simp [Except.toOption, Option.filter, hs, hv, hin]
  · simp [Except.toOption, Option.filter, hs, hv, hin]

end Neo4j

theorem outgoing_filter {edges : List Edge} :
    outgoing entity (edges.filter fun e => e.subject_id == entity) = outgoing entity edges := by
  rw [outgoing, outgoing, List.filter_filter]
  simp only [Bool.and_comm, Bool.and_self_left]

/-- CORRECT: one hop from an entity is the live edges leaving it, on either backend. -/
theorem neighbors_one (g : BoundGraph dumps) :
    g.neighbors entity 1 = .ok (outgoing entity (g.leaving entity)) := by
  cases g with
  | networkx g => exact congrArg Except.ok (NetworkX.neighbors_one g.2)
  | neo4j g => exact (Neo4j.neighbors_one g.2).trans (congrArg Except.ok outgoing_filter.symm)

theorem BoundGraph.mem_leaving {g : BoundGraph dumps} {e : Edge} :
    e ∈ g.leaving entity ↔ e ∈ g.edges ∧ e.subject_id = entity := by
  cases g with
  | networkx g =>
      simp only [BoundGraph.leaving, BoundGraph.edges, List.mem_map, NetworkX.mem_out_edges]
      constructor
      · rintro ⟨b, ⟨hb, hsource⟩, rfl⟩
        exact ⟨⟨b, hb, rfl⟩, (g.2.keyed b hb).1.symm.trans hsource⟩
      · rintro ⟨⟨b, hb, rfl⟩, hsubject⟩
        exact ⟨b, ⟨hb, (g.2.keyed b hb).1.trans hsubject⟩, rfl⟩
  | neo4j g => simp [BoundGraph.leaving, BoundGraph.edges]

end GuardMem
