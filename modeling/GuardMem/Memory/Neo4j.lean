import GuardMem.Memory.Graph

/-! The durable graph: `Neo4jGraphStore` over the statements of `cypher.py`.

    Every `MERGE` of a key finds the one node under it, and a node's tenant is set when a subject's
    `MERGE` creates it and never again. Rows come in the order their relationships were created; Cypher
    promises none. CORRECT: a node has the tenant of the write that created it as a subject, or none
    (`entity_upsert`). -/

namespace GuardMem.Neo4j

open Lib.Table

/-- One `ASSERTS` relationship: the nodes it joins and its properties. -/
structure Rel where
  source : String
  object_is_entity : Bool
  object_key : String
  assertion_id : AssertionId
  subject_id : EntityId
  predicate : String
  object_json : Json
  confidence : UnitFloat
  valid_from : Time
  valid_to : Option Time
  trace_id : TraceId
  tenant_id : TenantId
  deriving DecidableEq

/-- What `MERGE (s)-[r:ASSERTS {assertion_id: …}]->(o)` looks a relationship up by. -/
def Rel.ends (r : Rel) : String × Bool × String × AssertionId :=
  (r.source, r.object_is_entity, r.object_key, r.assertion_id)

/-- The nodes under their unique keys, an `:Entity` with its `tenant_id`, and the relationships. -/
structure Graph where
  entities : List (String × Option TenantId)
  literals : List String
  rels : List Rel
  deriving DecidableEq

def Graph.empty : Graph := ⟨[], [], []⟩

/-- `MATCH (n:Entity {key: $key}) RETURN n.tenant_id`: no row, or the property. -/
def Graph.entity (g : Graph) (key : String) : Option (Option TenantId) :=
  (g.entities.find? fun n => n.1 == key).map Prod.snd

variable (dumps : Json → String)

/-- The relationship an assertion is written as. -/
def rel (a : StoredAssertion) : Rel where
  source := a.subject_id
  object_is_entity := match a.object with
    | .str _ => true
    | _ => false
  object_key := NetworkX.object_key dumps a.object
  assertion_id := a.assertion_id
  subject_id := a.subject_id
  predicate := a.predicate
  object_json := a.object.toJson
  confidence := a.confidence
  valid_from := a.valid_from
  valid_to := a.valid_to
  trace_id := a.trace_id
  tenant_id := a.tenant_id

/-- `UPSERT_ENTITY_OBJECT` for a string, `UPSERT_LITERAL_OBJECT` for anything else. -/
def upsert (a : StoredAssertion) (g : Graph) : Graph where
  entities :=
    let subjects := insertNew Prod.fst (a.subject_id, some a.tenant_id) g.entities
    match a.object with
    | .str key => insertNew Prod.fst (key, none) subjects
    | _ => subjects
  literals := match a.object with
    | .str _ => g.literals
    | value => insertNew id (NetworkX.object_key dumps value) g.literals
  rels := merge Rel.ends (rel dumps a) g.rels

/-- The tenant a read starting at a node is scoped to, if any. -/
def tenant_of (entity : EntityId) (g : Graph) : Option TenantId := (g.entity entity).join

def foreign_message (subject held tenant : String) : String :=
  "entity " ++ subject ++ " is already held for tenant " ++ held ++ "; this " ++
    "write claims it for " ++ tenant ++ ". ADR-0008 derives an EntityId " ++
    "as a uuid5 over the tenant, so two tenants cannot legitimately " ++
    "reach one id - this is a collision, and merging the two graphs " ++
    "would make every blast-radius score wrong without a symptom."

/-- Materialise `a` as one relationship; a subject held for another tenant is refused. -/
def upsert_assertion (a : StoredAssertion) (g : Graph) : Except Exc Graph :=
  match tenant_of a.subject_id g with
  | some held =>
      if held ≠ a.tenant_id then
        .error (.ValidationRejected (foreign_message a.subject_id held a.tenant_id))
      else .ok (upsert dumps a g)
  | none => .ok (upsert dumps a g)

/-! ### Reading -/

/-- `DEGREE`: the live relationships at a node, either way round and each once, in its tenant if it has
    one. -/
def degree (entity : EntityId) (g : Graph) : ℕ :=
  match g.entity entity with
  | none => 0
  | some tenant => g.rels.countP fun r =>
      (r.source == entity || (r.object_is_entity && r.object_key == entity)) && r.valid_to.isNone &&
        tenant.all (· == r.tenant_id)

/-- `HOP`: the live relationships out of a frontier, in a tenant if there is one. -/
def HOP (tenant : Option TenantId) (g : Graph) (frontier : List String) : List Rel :=
  g.rels.filter fun r => frontier.contains r.source && r.valid_to.isNone && tenant.all (· == r.tenant_id)

/-- Rebuild one edge from a row. -/
def edge_from (r : Rel) : Except Exc Edge :=
  match ObjectValue.ofJson r.object_json with
  | some object => .ok
      { assertion_id := r.assertion_id, subject_id := r.subject_id, predicate := r.predicate
        object := object, confidence := r.confidence, valid_from := r.valid_from
        valid_to := r.valid_to, trace_id := r.trace_id }
  | none => .error (.ValidationError "object")

/-- What a walk has collected, and the frontier it is building. -/
structure Walk where
  seen : List AssertionId := []
  found : List Edge := []
  following : List String := []

/-- The rows of one hop, each assertion once. -/
def follow : List Rel → Walk → Except Exc Walk
  | [], w => .ok w
  | r :: rows, w =>
      if w.seen.contains r.assertion_id then follow rows w
      else do
        let edge ← edge_from r
        follow rows
          { seen := r.assertion_id :: w.seen
            found := w.found ++ [edge]
            following := if r.object_is_entity && !w.following.contains r.object_key
              then w.following ++ [r.object_key] else w.following }

/-- `hops` rounds of expansion, stopping early at an empty frontier. -/
def rounds (hop : List String → List Rel) : ℕ → List String → Walk → Except Exc (List Edge)
  | 0, _, w => .ok w.found
  | n + 1, frontier, w => do
      let w ← follow (hop frontier) { w with following := [] }
      if w.following = [] then .ok w.found else rounds hop n w.following w

/-- The live edges reachable from `entity` within `hops`, in the tenant of the node it starts at. -/
def neighbors (entity : EntityId) (hops : ℕ) (g : Graph) : Except Exc (List Edge) :=
  rounds (HOP (tenant_of entity g) g) hops [entity] {}

/-! ### What an upsert does -/

variable {dumps} {a : StoredAssertion} {g g' : Graph} {key : String}

/-- The write names the key: as its subject, or as its object. -/
def Mentions (key : String) (a : StoredAssertion) : Prop := a.subject_id = key ∨ a.object = .str key

instance : Decidable (Mentions key a) := inferInstanceAs (Decidable (_ ∨ _))

@[simp] theorem rels_upsert : (upsert dumps a g).rels = merge Rel.ends (rel dumps a) g.rels := rfl

theorem find_insertNew {α : Type} {x : String × α} {t : List (String × α)} :
    ((insertNew Prod.fst x t).find? fun n => n.1 == key) =
      ((t.find? fun n => n.1 == key) <|> if x.1 = key then some x else none) := by
  by_cases h : x.1 ∈ t.map Prod.fst
  · rw [insertNew_old h]
    split
    · next heq =>
        obtain ⟨n, hn, hk⟩ := List.mem_map.mp h
        cases hf : t.find? fun n => n.1 == key with
        | some m => rfl
        | none => exact absurd (hk.trans heq) (by simpa using List.find?_eq_none.mp hf n hn)
    · cases t.find? fun n => n.1 == key <;> rfl
  · rw [insertNew_new h, List.find?_append]
    cases t.find? fun n => n.1 == key with
    | some m => rfl
    | none => by_cases heq : x.1 = key <;> simp [heq]

/-- CORRECT: an upsert leaves every node's tenant, and creates its subject with its own. -/
theorem entity_upsert : (upsert dumps a g).entity key =
    (g.entity key <|> if Mentions key a then some (if a.subject_id = key then some a.tenant_id else none)
      else none) := by
  have hcreated : ∀ o : ObjectValue, ((match o with
        | .str k => insertNew Prod.fst (k, none) (insertNew Prod.fst (a.subject_id, some a.tenant_id) g.entities)
        | _ => insertNew Prod.fst (a.subject_id, some a.tenant_id) g.entities).find?
          fun n : String × Option TenantId => n.1 == key).map Prod.snd =
      (g.entity key <|> if a.subject_id = key ∨ o = .str key then
        some (if a.subject_id = key then some a.tenant_id else none) else none) := by
    intro o
    unfold Graph.entity
    cases o with
    | str k =>
        simp only [find_insertNew, ObjectValue.str.injEq]
        cases g.entities.find? fun n => n.1 == key with
        | some n => rfl
        | none =>
            by_cases hs : a.subject_id = key
            · simp [hs]
            · by_cases hk : k = key <;> simp [hs, hk]
    | _ =>
        simp only [find_insertNew, reduceCtorEq, or_false]
        cases g.entities.find? fun n => n.1 == key with
        | some n => rfl
        | none => by_cases hs : a.subject_id = key <;> simp [hs]
  exact hcreated a.object

/-- An accepted upsert found its subject without a tenant, or with the assertion's own. -/
theorem upsert_ok : upsert_assertion dumps a g = .ok g' ↔
    (∀ held, tenant_of a.subject_id g = some held → held = a.tenant_id) ∧ upsert dumps a g = g' := by
  unfold upsert_assertion
  cases tenant_of a.subject_id g with
  | none => simp
  | some held => by_cases hh : held = a.tenant_id <;> simp [hh]

/-! ### What upserts keep -/

/-- Each relationship leaves the node of its own subject, which if it has a tenant has the
    relationship's, and its value can be read back. -/
structure Kept (g : Graph) : Prop where
  subjects : ∀ r ∈ g.rels, r.source = r.subject_id
  named : ∀ r ∈ g.rels, (g.entity r.source).isSome = true
  held : ∀ r ∈ g.rels, ∀ t, g.entity r.source = some (some t) → r.tenant_id = t
  legible : ∀ r ∈ g.rels, (ObjectValue.ofJson r.object_json).isSome = true

theorem Kept.empty : Kept Graph.empty := by
  constructor <;> simp [Graph.empty]

/-- The step lemma. -/
theorem Kept.upsert (h : Kept g) (hu : upsert_assertion dumps a g = .ok g') : Kept g' := by
  obtain ⟨hheld, rfl⟩ := upsert_ok.mp hu
  have hkeep : ∀ r ∈ g.rels, (upsert dumps a g).entity r.source = g.entity r.source := by
    intro r hr
    obtain ⟨held, hnode⟩ := Option.isSome_iff_exists.mp (h.named r hr)
    rw [entity_upsert, hnode]
    rfl
  constructor
  · intro r hr
    rcases mem_merge.mp hr with rfl | ⟨hr, -⟩
    · rfl
    · exact h.subjects r hr
  · intro r hr
    rcases mem_merge.mp hr with rfl | ⟨hr, -⟩
    · rw [entity_upsert]
      cases hnode : g.entity a.subject_id <;> simp [rel, hnode, Mentions]
    · rw [hkeep r hr]
      exact h.named r hr
  · intro r hr t ht
    rcases mem_merge.mp hr with rfl | ⟨hr, -⟩
    · rw [entity_upsert] at ht
      cases hnode : g.entity a.subject_id with
      | none => simpa [rel, hnode, Mentions] using ht
      | some held =>
          have hsome : held = some t := by simpa [rel, hnode] using ht
          exact (hheld t (by rw [tenant_of, hnode, hsome]; rfl)).symm
    · rw [hkeep r hr] at ht
      exact h.held r hr t ht
  · intro r hr
    rcases mem_merge.mp hr with rfl | ⟨hr, -⟩
    · simp [rel]
    · exact h.legible r hr

/-- The relationships as edges. -/
def edges (g : Graph) : List Edge := g.rels.filterMap fun r => (edge_from r).toOption

end GuardMem.Neo4j
