import GuardMem.Lib.Table
import GuardMem.Schemas.Entity
import Mathlib.Algebra.BigOperators.Group.List.Basic

/-! The graph half of the dual write.

    `GraphStore` is the protocol with its contract as fields: replaying an upsert is a no-op, reads
    report live edges only. `NetworkX.store` is the in-process backend, with the contract proved. -/

namespace GuardMem

open Lib.Table

/-- The edge one assertion materialises. -/
def Edge.of (a : StoredAssertion) : Edge where
  assertion_id := a.assertion_id
  subject_id := a.subject_id
  predicate := a.predicate
  object := a.object
  confidence := a.confidence
  valid_from := a.valid_from
  valid_to := a.valid_to
  trace_id := a.trace_id

/-- The entity graph. `edges` is what the backend holds, each edge with the tenant it is held for. -/
structure GraphStore (G : Type) where
  empty : G
  upsert_assertion : StoredAssertion → G → Except Exc G
  neighbors : EntityId → ℕ → G → List Edge
  degree : EntityId → G → ℕ
  edges : G → List (TenantId × Edge)
  edges_empty : edges empty = []
  /-- An accepted assertion has its edge. -/
  upsert_self : ∀ {a g g'}, upsert_assertion a g = .ok g' → (a.tenant_id, Edge.of a) ∈ edges g'
  /-- The edges of other assertions stay. -/
  upsert_keep : ∀ {a g g' t e}, upsert_assertion a g = .ok g' → (t, e) ∈ edges g →
    e.assertion_id ≠ a.assertion_id → (t, e) ∈ edges g'
  /-- Nothing else appears, and an older version of the same edge is overwritten. -/
  upsert_only : ∀ {a g g' t e}, upsert_assertion a g = .ok g' → (t, e) ∈ edges g' →
    e = Edge.of a ∨ ((t, e) ∈ edges g ∧
      ¬ (e.assertion_id = a.assertion_id ∧ e.subject_id = a.subject_id ∧ e.object = a.object))
  /-- Idempotent by `assertion_id`: the relay replays. -/
  upsert_again : ∀ {a g}, (a.tenant_id, Edge.of a) ∈ edges g → upsert_assertion a g = .ok g
  /-- The reads see live edges only. -/
  neighbors_live : ∀ {e n g edge}, edge ∈ neighbors e n g →
    (∃ t, (t, edge) ∈ edges g) ∧ edge.valid_to = none
  counts : EntityId → Edge → ℕ
  counts_retired : ∀ {e edge}, edge.valid_to ≠ none → counts e edge = 0
  degree_eq : ∀ {e g}, degree e g = ((edges g).map fun te => counts e te.2).sum

namespace NetworkX

/-- One keyed arc of the multigraph. -/
structure Arc where
  source : String
  target : String
  key : AssertionId
  edge : Edge
  deriving DecidableEq

/-- `nx.MultiDiGraph` as the store uses it: nodes with their tenant attribute, arcs keyed within
    their endpoints. -/
structure MultiDiGraph where
  nodes : List (String × Option TenantId)
  arcs : List Arc
  deriving DecidableEq

/-- `graph.nodes.get(node, {}).get("tenant_id")`. -/
def MultiDiGraph.tenant (g : MultiDiGraph) (node : String) : Option TenantId :=
  (g.nodes.find? fun n => n.1 == node).bind Prod.snd

def MultiDiGraph.hasNode (g : MultiDiGraph) (node : String) : Prop := node ∈ g.nodes.map Prod.fst

instance (g : MultiDiGraph) (node : String) : Decidable (g.hasNode node) :=
  inferInstanceAs (Decidable (_ ∈ _))

/-- `add_node(node)`, or with the tenant attribute `add_node(node, tenant_id=t)`. -/
def MultiDiGraph.add_node (g : MultiDiGraph) (node : String) (t : Option TenantId) : MultiDiGraph :=
  { g with
    nodes := updateWhere (fun n => n.1 == node) (fun n => (n.1, t <|> n.2))
      (insertNew Prod.fst (node, none) g.nodes) }

/-- Where an arc is kept: its endpoints and its key. -/
def Arc.slot (a : Arc) : String × String × AssertionId := (a.source, a.target, a.key)

/-- `add_edge(source, target, key, edge=...)`: an arc already there gets the new attributes. -/
def MultiDiGraph.add_edge (g : MultiDiGraph) (arc : Arc) : MultiDiGraph :=
  { g with
    arcs := updateWhere (fun a => a.slot == arc.slot) (fun a => { a with edge := arc.edge })
      (insertNew Arc.slot arc g.arcs) }

/-- The node key an object is stored under; `dumps` is `json.dumps(value, sort_keys=True)`. -/
def object_key (dumps : Json → String) : ObjectValue → String
  | .str s => s
  | value => "literal:" ++ dumps value.toJson

/-- The arc one assertion becomes. -/
def arcOf (dumps : Json → String) (a : StoredAssertion) : Arc :=
  ⟨a.subject_id, object_key dumps a.object, a.assertion_id, .of a⟩

def foreign_message (subject held tenant : String) : String :=
  "entity " ++ subject ++ " is already held for tenant " ++ held ++ "; this graph " ++
    "cannot also hold it for " ++ tenant ++ ". The NetworkX backend is " ++
    "single-tenant (PROJECT_TREE.md) because the GraphStore protocol " ++
    "gives degree() and neighbors() no tenant to filter on. Use one " ++
    "store per tenant, or the Neo4j backend from S7.1."

/-- The three mutations of an accepted upsert. -/
def materialise (dumps : Json → String) (a : StoredAssertion) (g : MultiDiGraph) : MultiDiGraph :=
  ((g.add_node a.subject_id (some a.tenant_id)).add_node (object_key dumps a.object) none).add_edge
    (arcOf dumps a)

/-- Materialise `a` as one arc; a subject held for another tenant is refused. -/
def upsert_assertion (dumps : Json → String) (a : StoredAssertion) (g : MultiDiGraph) :
    Except Exc MultiDiGraph :=
  match g.tenant a.subject_id with
  | some held =>
      if held ≠ a.tenant_id then
        .error (.ValidationRejected (foreign_message a.subject_id held a.tenant_id))
      else .ok (materialise dumps a g)
  | none => .ok (materialise dumps a g)

/-- What a walk has collected, and the frontier it is building. -/
structure Walk where
  seen : List AssertionId := []
  found : List Edge := []
  following : List String := []

/-- One live out-arc of the node being expanded. -/
def follow (w : Walk) (arc : Arc) : Walk :=
  if arc.edge.valid_to.isSome || w.seen.contains arc.key then w
  else
    { seen := arc.key :: w.seen
      found := w.found ++ [arc.edge]
      following := match arc.edge.object with
        | .str _ => if w.following.contains arc.target then w.following
            else w.following ++ [arc.target]
        | _ => w.following }

/-- `out_edges(node, keys=True, data=True)`: the arcs leaving a node, target by target in the order the
    targets were first reached from it. -/
def MultiDiGraph.out_edges (g : MultiDiGraph) (node : String) : List Arc :=
  let arcs := g.arcs.filter fun a => a.source == node
  (arcs.map Arc.target).eraseDups.flatMap fun target => arcs.filter fun a => a.target == target

/-- Walk one node's live out-arcs. -/
def expand (g : MultiDiGraph) (w : Walk) (node : String) : Walk := (g.out_edges node).foldl follow w

/-- `hops` rounds of expansion, stopping early at an empty frontier. -/
def rounds (g : MultiDiGraph) : ℕ → List String → Walk → List Edge
  | 0, _, w => w.found
  | n + 1, frontier, w =>
      let w := frontier.foldl (expand g) { w with following := [] }
      if w.following = [] then w.found else rounds g n w.following w

/-- The live edges reachable from `entity` within `hops`. -/
def neighbors (entity : EntityId) (hops : ℕ) (g : MultiDiGraph) : List Edge :=
  rounds g hops [entity] {}

/-- How often an arc's endpoints are the node. -/
def Arc.touches (a : Arc) (node : String) : ℕ :=
  (if a.source == node then 1 else 0) + (if a.target == node then 1 else 0)

/-- How many live arcs touch `entity`: an arc from it to itself is an out-arc and an in-arc. -/
def degree (entity : EntityId) (g : MultiDiGraph) : ℕ :=
  if g.hasNode entity then
    ((g.arcs.filter fun a => a.edge.valid_to.isNone).map fun a => a.touches entity).sum
  else 0

/-! ### The contract -/

/-- What upserts keep: one entry a node, one arc a slot, each arc between two nodes under its
    edge's own keys, each subject held for a tenant. -/
structure Kept (dumps : Json → String) (g : MultiDiGraph) : Prop where
  nodes_nodup : (g.nodes.map Prod.fst).Nodup
  slots_nodup : (g.arcs.map Arc.slot).Nodup
  keyed : ∀ a ∈ g.arcs, a.source = a.edge.subject_id ∧ a.target = object_key dumps a.edge.object ∧
    a.key = a.edge.assertion_id
  ended : ∀ a ∈ g.arcs, g.hasNode a.source ∧ g.hasNode a.target
  held : ∀ a ∈ g.arcs, (g.tenant a.source).isSome = true

variable {dumps : Json → String} {g g' : MultiDiGraph} {a : StoredAssertion} {node x : String}

@[simp] theorem arcs_add_node {t} : (g.add_node node t).arcs = g.arcs := rfl
@[simp] theorem nodes_add_edge {arc} : (g.add_edge arc).nodes = g.nodes := rfl

theorem hasNode_add_node {t} : (g.add_node node t).hasNode x ↔ x = node ∨ g.hasNode x := by
  have hmap : (g.add_node node t).nodes.map Prod.fst =
      (insertNew Prod.fst (node, none) g.nodes).map Prod.fst := map_updateWhere fun _ => rfl
  simp only [MultiDiGraph.hasNode, hmap]
  by_cases h : node ∈ g.nodes.map Prod.fst
  · rw [insertNew_old h]
    exact ⟨Or.inr, fun hx => hx.elim (fun e => e ▸ h) id⟩
  · rw [insertNew_new h]
    simp [or_comm]

/-- Adding a node sets its attribute when one is given and no other node's. -/
theorem tenant_add_node {t : Option TenantId} :
    (g.add_node node t).tenant x = if x = node then (t <|> g.tenant x) else g.tenant x := by
  have hfst : ((fun n : String × Option TenantId => n.1 == x) ∘ fun r : String × Option TenantId =>
      if r.1 == node then (r.1, t <|> r.2) else r) = fun n => n.1 == x := by
    funext n
    simp only [Function.comp]
    split <;> rfl
  have hfind : ∀ l : List (String × Option TenantId),
      ((updateWhere (fun n => n.1 == node) (fun n => (n.1, t <|> n.2)) l).find?
        fun n => n.1 == x).bind Prod.snd =
      (l.find? fun n => n.1 == x).bind fun n => if x = node then (t <|> n.2) else n.2 := by
    intro l
    rw [updateWhere, List.find?_map, hfst]
    cases h : l.find? fun n => n.1 == x with
    | none => rfl
    | some n =>
        have hn : n.1 = x := by simpa using List.find?_some h
        by_cases hx : x = node
        · simp [hn, hx]
        · simp [hn, hx]
  simp only [MultiDiGraph.tenant, MultiDiGraph.add_node, hfind]
  by_cases hx : x = node
  · subst hx
    simp only [if_true]
    by_cases h : x ∈ g.nodes.map Prod.fst
    · rw [insertNew_old h]
      obtain ⟨n, hn, hnx⟩ := List.mem_map.mp h
      cases hf : g.nodes.find? fun n => n.1 == x with
      | none => exact absurd hnx (by simpa using List.find?_eq_none.mp hf n hn)
      | some m => rfl
    · have hnone : (g.nodes.find? fun n => n.1 == x) = none := by
        refine List.find?_eq_none.mpr fun n hn hnx => h ?_
        exact List.mem_map.mpr ⟨n, hn, by simpa using hnx⟩
      rw [insertNew_new h, List.find?_append, hnone]
      simp
  · simp only [hx, if_false]
    by_cases h : node ∈ g.nodes.map Prod.fst
    · rw [insertNew_old h]
    · rw [insertNew_new h, List.find?_append]
      have hne : (node == x) = false := by simpa using Ne.symm hx
      simp only [List.find?_cons, hne, List.find?_nil, Option.or_none]

/-- Adding an arc is a merge on its slot. -/
theorem arcs_add_edge {arc : Arc} : (g.add_edge arc).arcs = merge Arc.slot arc g.arcs := by
  simp only [MultiDiGraph.add_edge, merge, updateWhere]
  refine List.map_congr_left fun b _ => ?_
  by_cases hslot : b.slot = arc.slot
  · have hends := hslot
    simp only [Arc.slot, Prod.mk.injEq] at hends
    obtain ⟨hs, ht, hk⟩ := hends
    simp [hslot, hs, ht, hk]
  · simp [hslot]

/-- Adding an arc changes the one in its slot. -/
theorem mem_add_edge {arc b : Arc} :
    b ∈ (g.add_edge arc).arcs ↔ b = arc ∨ (b ∈ g.arcs ∧ b.slot ≠ arc.slot) := by
  rw [arcs_add_edge, mem_merge]

theorem slots_add_edge {arc : Arc} (hnd : (g.arcs.map Arc.slot).Nodup) :
    ((g.add_edge arc).arcs.map Arc.slot).Nodup := by
  rw [arcs_add_edge]
  exact nodup_merge hnd

theorem nodes_nodup_add_node {t} (hnd : (g.nodes.map Prod.fst).Nodup) :
    ((g.add_node node t).nodes.map Prod.fst).Nodup := by
  have hmap : (g.add_node node t).nodes.map Prod.fst =
      (insertNew Prod.fst (node, none) g.nodes).map Prod.fst := map_updateWhere fun _ => rfl
  rw [hmap]
  exact nodup_insertNew hnd

/-- An accepted upsert found its subject unheld or held for the assertion's own tenant. -/
theorem upsert_ok : upsert_assertion dumps a g = .ok g' ↔
    (∀ held, g.tenant a.subject_id = some held → held = a.tenant_id) ∧ g' = materialise dumps a g := by
  unfold upsert_assertion
  cases h : g.tenant a.subject_id with
  | none => simp [eq_comm]
  | some held =>
      by_cases hh : held = a.tenant_id
      · simp [hh, eq_comm]
      · simp [hh]

theorem tenant_materialise : (materialise dumps a g).tenant x =
    if x = a.subject_id then some a.tenant_id else g.tenant x := by
  have h : (materialise dumps a g).tenant x =
      ((g.add_node a.subject_id (some a.tenant_id)).add_node (object_key dumps a.object) none).tenant x :=
    rfl
  rw [h, tenant_add_node, tenant_add_node]
  by_cases hx : x = a.subject_id <;> by_cases ho : x = object_key dumps a.object <;> simp [hx, ho]

/-- An accepted upsert changes no node's tenant that was held. -/
theorem tenant_kept (h : upsert_assertion dumps a g = .ok g') {t : TenantId}
    (ht : g.tenant x = some t) : g'.tenant x = some t := by
  obtain ⟨hheld, rfl⟩ := upsert_ok.mp h
  rw [tenant_materialise]
  split
  · next hx => subst hx; rw [hheld t ht]
  · exact ht

theorem mem_materialise {b : Arc} :
    b ∈ (materialise dumps a g).arcs ↔
      b = arcOf dumps a ∨ (b ∈ g.arcs ∧ b.slot ≠ (arcOf dumps a).slot) := mem_add_edge

theorem hasNode_materialise : (materialise dumps a g).hasNode x ↔
    x = object_key dumps a.object ∨ x = a.subject_id ∨ g.hasNode x := by
  have h : (materialise dumps a g).hasNode x ↔ ((g.add_node a.subject_id
    (some a.tenant_id)).add_node (object_key dumps a.object) none).hasNode x := Iff.rfl
  rw [h, hasNode_add_node, hasNode_add_node]

theorem Kept.empty : Kept dumps ⟨[], []⟩ := by constructor <;> simp

theorem Kept.upsert (hk : Kept dumps g) (h : upsert_assertion dumps a g = .ok g') : Kept dumps g' := by
  have hten := fun {x t} => tenant_kept (x := x) (t := t) h
  obtain ⟨-, rfl⟩ := upsert_ok.mp h
  refine ⟨nodes_nodup_add_node (nodes_nodup_add_node hk.nodes_nodup),
    slots_add_edge hk.slots_nodup, ?_, ?_, ?_⟩
  · intro b hb
    rcases mem_materialise.mp hb with rfl | ⟨hb, -⟩
    · exact ⟨rfl, rfl, rfl⟩
    · exact hk.keyed b hb
  · intro b hb
    rw [hasNode_materialise, hasNode_materialise]
    rcases mem_materialise.mp hb with rfl | ⟨hb, -⟩
    · exact ⟨Or.inr (Or.inl rfl), Or.inl rfl⟩
    · exact ⟨Or.inr (Or.inr (hk.ended b hb).1), Or.inr (Or.inr (hk.ended b hb).2)⟩
  · intro b hb
    rcases mem_materialise.mp hb with rfl | ⟨hb, -⟩
    · rw [tenant_materialise]; simp [arcOf]
    · obtain ⟨t, ht⟩ := Option.isSome_iff_exists.mp (hk.held b hb)
      rw [hten ht]; rfl

theorem tenant_of_mem (hnd : (g.nodes.map Prod.fst).Nodup) {n : String × Option TenantId}
    (hn : n ∈ g.nodes) : g.tenant n.1 = n.2 := by
  cases hf : g.nodes.find? fun m => m.1 == n.1 with
  | none => exact absurd (beq_self_eq_true n.1) (List.find?_eq_none.mp hf n hn)
  | some m =>
      have hm : m.1 = n.1 := by simpa using List.find?_some hf
      rw [MultiDiGraph.tenant, hf, eq_of_key Prod.fst hnd (List.mem_of_find?_eq_some hf) hn hm]
      rfl

/-- Adding a node that is there, with no attribute or the one it has, changes nothing. -/
theorem add_node_again {t : Option TenantId} (hnd : (g.nodes.map Prod.fst).Nodup)
    (h : g.hasNode node) (ht : ∀ t', t = some t' → g.tenant node = some t') :
    g.add_node node t = g := by
  have hnodes : updateWhere (fun n => n.1 == node) (fun n => (n.1, t <|> n.2))
      (insertNew Prod.fst (node, none) g.nodes) = g.nodes := by
    rw [insertNew_old h]
    refine updateWhere_id fun n hn hp => ?_
    obtain rfl : n.1 = node := by simpa using hp
    have hn2 := tenant_of_mem hnd hn
    cases t with
    | none => rfl
    | some t' => rw [ht t' rfl] at hn2; exact Prod.ext rfl hn2
  rw [MultiDiGraph.add_node, hnodes]

theorem add_edge_again {arc : Arc} (hnd : (g.arcs.map Arc.slot).Nodup) (h : arc ∈ g.arcs) :
    g.add_edge arc = g := by
  have harcs : updateWhere (fun a => a.slot == arc.slot) (fun a => { a with edge := arc.edge })
      (insertNew Arc.slot arc g.arcs) = g.arcs := by
    rw [insertNew_old (List.mem_map_of_mem h)]
    refine updateWhere_id fun b hb hp => ?_
    rw [eq_of_key Arc.slot hnd hb h (by simpa using hp)]
  rw [MultiDiGraph.add_edge, harcs]

/-- Replaying the arc that is there changes nothing. -/
theorem upsert_again (hk : Kept dumps g) (hb : arcOf dumps a ∈ g.arcs)
    (ht : g.tenant a.subject_id = some a.tenant_id) : upsert_assertion dumps a g = .ok g := by
  have hended : g.hasNode a.subject_id ∧ g.hasNode (object_key dumps a.object) := hk.ended _ hb
  refine upsert_ok.mpr ⟨fun held h => Option.some.inj (h.symm.trans ht), ?_⟩
  rw [materialise, add_node_again hk.nodes_nodup hended.1 (fun t' h => ht.trans h),
    add_node_again hk.nodes_nodup hended.2 (by simp), add_edge_again hk.slots_nodup hb]

/-! ### The reads -/

theorem mem_out_edges {b : Arc} : b ∈ g.out_edges node ↔ b ∈ g.arcs ∧ b.source = node := by
  simp only [MultiDiGraph.out_edges, List.mem_flatMap, List.mem_eraseDups, List.mem_map, List.mem_filter,
    beq_iff_eq]
  constructor
  · rintro ⟨_, -, hb, -⟩
    exact hb
  · exact fun hb => ⟨b.target, ⟨b, hb, rfl⟩, hb, rfl⟩

/-- Everything a walk has found is a live arc of the graph. -/
def Walk.Sound (g : MultiDiGraph) (w : Walk) : Prop :=
  ∀ e ∈ w.found, e.valid_to = none ∧ ∃ b ∈ g.arcs, b.edge = e

theorem Walk.Sound.expand {w : Walk} (h : w.Sound g) (node : String) :
    (expand g w node).Sound g := by
  have hfold : ∀ (bs : List Arc) (w : Walk), (∀ b ∈ bs, b ∈ g.arcs) → w.Sound g →
      (bs.foldl follow w).Sound g := by
    intro bs
    induction bs with
    | nil => exact fun w _ hw => hw
    | cons b bs ih =>
        intro w hbs hw
        refine ih _ (fun c hc => hbs c (List.mem_cons_of_mem _ hc)) ?_
        unfold follow
        split
        · exact hw
        · next hb =>
            intro e he
            rcases List.mem_append.mp he with he | he
            · exact hw e he
            · obtain rfl := List.mem_singleton.mp he
              simp only [Bool.or_eq_true, not_or, Option.isSome_iff_ne_none, ne_eq,
                not_not] at hb
              exact ⟨hb.1, b, hbs b List.mem_cons_self, rfl⟩
  exact hfold _ w (fun b hb => (mem_out_edges.mp hb).1) h

theorem Walk.Sound.foldl {nodes : List String} : ∀ {w : Walk}, w.Sound g →
    (nodes.foldl (NetworkX.expand g) w).Sound g := by
  induction nodes with
  | nil => exact id
  | cons n ns ih => exact fun h => ih (h.expand n)

theorem rounds_sound : ∀ {n : ℕ} {frontier : List String} {w : Walk}, w.Sound g →
    ∀ e ∈ rounds g n frontier w, e.valid_to = none ∧ ∃ b ∈ g.arcs, b.edge = e
  | 0, _, _, h => h
  | n + 1, frontier, w, h => by
      have hw : Walk.Sound g (frontier.foldl (expand g) { w with following := [] }) :=
        Walk.Sound.foldl h
      simp only [rounds]
      split
      · exact hw
      · exact rounds_sound hw

/-- How often a live edge's endpoints are the entity. -/
def counts (dumps : Json → String) (entity : EntityId) (e : Edge) : ℕ :=
  if e.valid_to.isNone then
    (if e.subject_id == entity then 1 else 0) + (if object_key dumps e.object == entity then 1 else 0)
  else 0

theorem degree_eq (hk : Kept dumps g) (entity : EntityId) :
    degree entity g = (g.arcs.map fun b => counts dumps entity b.edge).sum := by
  have hsum : ∀ bs : List Arc, (∀ b ∈ bs, b ∈ g.arcs) →
      ((bs.filter fun b => b.edge.valid_to.isNone).map fun b => b.touches entity).sum =
        (bs.map fun b => counts dumps entity b.edge).sum := by
    intro bs
    induction bs with
    | nil => exact fun _ => rfl
    | cons b bs ih =>
        intro hbs
        obtain ⟨hs, ht, -⟩ := hk.keyed b (hbs b List.mem_cons_self)
        have hrest := ih fun c hc => hbs c (List.mem_cons_of_mem _ hc)
        cases hv : b.edge.valid_to with
        | none =>
            have hhead : b.touches entity = counts dumps entity b.edge := by
              simp [counts, hv, Arc.touches, hs, ht]
            rw [List.filter_cons_of_pos (by simp [hv]), List.map_cons, List.sum_cons, List.map_cons,
              List.sum_cons, hhead, hrest]
        | some _ =>
            have hhead : counts dumps entity b.edge = 0 := by simp [counts, hv]
            rw [List.filter_cons_of_neg (by simp [hv]), List.map_cons, List.sum_cons, hhead, hrest,
              Nat.zero_add]
  unfold degree
  split
  · exact hsum _ fun _ hb => hb
  · next hnode =>
      -- no arc ends at a node the graph does not have
      refine (List.sum_eq_zero fun n hn => ?_).symm
      obtain ⟨b, hb, rfl⟩ := List.mem_map.mp hn
      obtain ⟨hs, ht, -⟩ := hk.keyed b hb
      have hns : b.edge.subject_id ≠ entity := fun h => hnode (h ▸ hs ▸ (hk.ended b hb).1)
      have hnt : object_key dumps b.edge.object ≠ entity := fun h => hnode (h ▸ ht ▸ (hk.ended b hb).2)
      simp [counts, hns, hnt]

/-- What the store holds: each arc's edge, for the tenant of its subject. -/
def edges (g : MultiDiGraph) : List (TenantId × Edge) :=
  g.arcs.map fun b => ((g.tenant b.source).getD "", b.edge)

theorem mem_edges {t : TenantId} {e : Edge} (hk : Kept dumps g) :
    (t, e) ∈ edges g ↔ ∃ b ∈ g.arcs, b.edge = e ∧ g.tenant b.source = some t := by
  simp only [edges, List.mem_map, Prod.mk.injEq]
  constructor
  · rintro ⟨b, hb, ht, rfl⟩
    obtain ⟨t', ht'⟩ := Option.isSome_iff_exists.mp (hk.held b hb)
    rw [ht'] at ht
    exact ⟨b, hb, rfl, ht' ▸ congrArg some ht⟩
  · rintro ⟨b, hb, rfl, ht⟩
    exact ⟨b, hb, by rw [ht]; rfl, rfl⟩

/-- An upsert of a graph that only upserts have touched. -/
def upsertKept (a : StoredAssertion) (g : { g : MultiDiGraph // Kept dumps g }) :
    Except Exc { g : MultiDiGraph // Kept dumps g } :=
  match h : upsert_assertion dumps a g.1 with
  | .ok g' => .ok ⟨g', g.2.upsert h⟩
  | .error e => .error e

theorem upsertKept_ok {g g' : { g : MultiDiGraph // Kept dumps g }} :
    upsertKept a g = .ok g' ↔ upsert_assertion dumps a g.1 = .ok g'.1 := by
  unfold upsertKept
  split
  · next g'' h => simp [h, Subtype.ext_iff]
  · next e h => simp [h]

/-- The in-process backend. -/
def store (dumps : Json → String) : GraphStore { g : MultiDiGraph // Kept dumps g } where
  empty := ⟨⟨[], []⟩, .empty⟩
  upsert_assertion := upsertKept
  neighbors entity hops g := NetworkX.neighbors entity hops g.1
  degree entity g := NetworkX.degree entity g.1
  edges g := NetworkX.edges g.1
  edges_empty := rfl
  upsert_self {a g g'} h := by
    obtain ⟨-, hg'⟩ := upsert_ok.mp (upsertKept_ok.mp h)
    refine (mem_edges g'.2).mpr ⟨arcOf dumps a, ?_, rfl, ?_⟩
    · rw [hg']; exact mem_materialise.mpr (Or.inl rfl)
    · rw [hg', tenant_materialise]; exact if_pos rfl
  upsert_keep {a g g' t e} h he hne := by
    have h := upsertKept_ok.mp h
    obtain ⟨b, hb, rfl, ht⟩ := (mem_edges g.2).mp he
    refine (mem_edges g'.2).mpr ⟨b, ?_, rfl, tenant_kept h ht⟩
    rw [(upsert_ok.mp h).2]
    refine mem_materialise.mpr (Or.inr ⟨hb, fun hslot => hne ?_⟩)
    simp only [Arc.slot, arcOf, Prod.mk.injEq] at hslot
    exact (g.2.keyed b hb).2.2.symm.trans hslot.2.2
  upsert_only {a g g' t e} h he := by
    have h := upsertKept_ok.mp h
    obtain ⟨b, hb, rfl, ht⟩ := (mem_edges g'.2).mp he
    rw [(upsert_ok.mp h).2] at hb
    rcases mem_materialise.mp hb with rfl | ⟨hb, hslot⟩
    · exact Or.inl rfl
    · obtain ⟨hs, htarget, hkey⟩ := g.2.keyed b hb
      obtain ⟨t', ht'⟩ := Option.isSome_iff_exists.mp (g.2.held b hb)
      rw [tenant_kept h ht', Option.some.injEq] at ht
      refine Or.inr ⟨(mem_edges g.2).mpr ⟨b, hb, rfl, ht ▸ ht'⟩, ?_⟩
      rintro ⟨hid, hsub, hobj⟩
      exact hslot (by simp [Arc.slot, arcOf, hs, htarget, hkey, hid, hsub, hobj])
  upsert_again {a g} he := by
    obtain ⟨b, hb, hedge, ht⟩ := (mem_edges g.2).mp he
    obtain ⟨hs, htarget, hkey⟩ := g.2.keyed b hb
    rw [hedge] at hs htarget hkey
    have hb' : b = arcOf dumps a := by
      obtain ⟨bs, bt, bk, be⟩ := b
      simp only at hs htarget hkey hedge
      subst hs htarget hkey hedge
      rfl
    subst hb'
    exact upsertKept_ok.mpr (NetworkX.upsert_again g.2 hb ht)
  neighbors_live {e n g edge} he := by
    have hsound : Walk.Sound g.1 {} := fun e he => absurd he List.not_mem_nil
    obtain ⟨hlive, b, hb, rfl⟩ := rounds_sound hsound edge he
    obtain ⟨t, ht⟩ := Option.isSome_iff_exists.mp (g.2.held b hb)
    exact ⟨⟨t, (mem_edges g.2).mpr ⟨b, hb, rfl, ht⟩⟩, hlive⟩
  counts := counts dumps
  counts_retired {e edge} h := by simp [NetworkX.counts, h]
  degree_eq {e g} := by
    rw [NetworkX.degree_eq g.2]
    simp [NetworkX.edges, Function.comp_def]

end NetworkX

end GuardMem
