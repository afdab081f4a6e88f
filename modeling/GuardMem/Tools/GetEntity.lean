import GuardMem.Memory.Plans
import GuardMem.Memory.Selection
import GuardMem.Tools.Context

/-! `memory.get_entity`: an entity's assertions out of the vector store, and its neighbours out of the
    graph.

    The store is bound to the tenant and told the namespace; the graph is told the id. -/

namespace GuardMem

/-- One citation of a rendered assertion. -/
structure CitationView where
  source_hash : String
  span : ℕ × ℕ
  tier : String
  verbatim : String
  deriving DecidableEq

/-- One assertion in the result shape of a search. -/
structure AssertionView where
  assertion_id : AssertionId
  subject : EntityId
  predicate : String
  object : ObjectValue
  confidence : UnitFloat
  valid_from : String
  valid_to : Option String
  corroboration : ℕ
  provenance : List CitationView
  deriving DecidableEq

/-- One neighbour, with its confidence. -/
structure EdgeView where
  assertion_id : AssertionId
  subject : EntityId
  predicate : String
  object : ObjectValue
  confidence : UnitFloat
  valid_from : String
  valid_to : Option String
  deriving DecidableEq

/-- What a call is answered with. -/
structure EntityResponse where
  entity_id : EntityId
  «namespace» : Namespace
  as_of : Option String
  assertions : List (String × List AssertionView)
  neighbors : List EdgeView
  graph_backed : Bool
  deriving DecidableEq

variable (py : Readers)

def assertion_view (a : StoredAssertion) : AssertionView where
  assertion_id := a.assertion_id
  subject := a.subject_id
  predicate := a.predicate
  object := a.object
  confidence := a.confidence
  valid_from := py.isoformat a.valid_from
  valid_to := a.valid_to.map py.isoformat
  corroboration := a.corroboration_count
  provenance := a.provenance.map fun citation =>
    ⟨citation.source_hash, citation.source_span, citation.source_tier.value, citation.verbatim⟩

def edge_view (e : Edge) : EdgeView where
  assertion_id := e.assertion_id
  subject := e.subject_id
  predicate := e.predicate
  object := e.object
  confidence := e.confidence
  valid_from := py.isoformat e.valid_from
  valid_to := e.valid_to.map py.isoformat

/-- `grouped[predicate].append(view)`. -/
def group_under (predicate : String) (view : AssertionView) :
    List (String × List AssertionView) → List (String × List AssertionView)
  | [] => [(predicate, [view])]
  | (p, views) :: rest =>
      if p = predicate then (p, views ++ [view]) :: rest else (p, views) :: group_under predicate view rest

/-- Predicate to the assertions holding it. -/
def grouped (assertions : List StoredAssertion) : List (String × List AssertionView) :=
  assertions.foldl (fun groups a => group_under a.predicate (assertion_view py a) groups) []

/-- Read and validate `entity_id`. -/
def require_entity_id (arguments : JsonObj) : Except ToolError EntityId :=
  match arguments.lookup "entity_id" with
  | some (.str entity_id) =>
      if entity_id = "" then .error (.ToolRefusedError "`entity_id` is required and must be a string")
      else if py.UUID entity_id then .ok entity_id
      else .error (.ToolRefusedError
        ("`entity_id` must be a resolved entity id (a UUID), got " ++ py.repr entity_id ++ ". " ++
          "GuardMem binds an entity to its namespace and never matches names " ++
          "(ADR-0008), so a name cannot be looked up here."))
  | _ => .error (.ToolRefusedError "`entity_id` is required and must be a string")

/-- How many of the entity's assertions to read. -/
def ASSERTION_LIMIT : ℕ := 200

/-- What the tools read: the database and the graph the server is bound to. -/
structure Stores (dumps : Json → String) where
  db : Db
  graph : BoundGraph dumps

variable {dumps : Json → String} (cast : UuidCast) (deps : Deps) (embed : String → List ℚ)

/-- The clauses of the vector half. -/
def entity_clauses (ns : Namespace) (entity_id : EntityId) (as_of : Option Time) : List Clause :=
  ALWAYS ns ++ [temporal as_of, .subject_id entity_id]

/-- The rows it is asked for. -/
def entity_rows (context : ToolContext) (entity_id : EntityId) (as_of : Option Time) (db : Db) :
    List AssertionRow :=
  selected cast context.tenant_id (entity_clauses context.namespace entity_id as_of) db

/-- The vector half of a call. -/
def entity_hits (plan : Plan) (context : ToolContext) (entity_id : EntityId) (as_of : Option Time)
    (db : Db) : Except Exc (List ScoredAssertion) :=
  plan.search cast deps context.tenant_id context.namespace (embed entity_id) ASSERTION_LIMIT
    [("subject_id", entity_id)] as_of db

/-- What `run_get_entity` checks before it awaits anything. -/
def entity_arguments (arguments : JsonObj) : Except ToolError Unit := do
  let _ ← require_entity_id py arguments
  let _ ← parse_as_of py arguments

/-- Answer `memory.get_entity` for one entity, where `plan` is how the database answers the search. -/
def run_get_entity (plan : Plan) (context : ToolContext) (arguments : JsonObj) (stores : Stores dumps) :
    Except ToolError EntityResponse := do
  let entity_id ← require_entity_id py arguments
  let as_of ← parse_as_of py arguments
  let hits ← ToolError.lift
    (entity_hits cast deps embed plan context entity_id (as_of.map Prod.fst) stores.db)
  let neighbours ← ToolError.lift (stores.graph.neighbors entity_id 1)
  .ok
    { entity_id := entity_id
      «namespace» := context.namespace
      as_of := as_of.map Prod.snd
      assertions := grouped py (hits.map ScoredAssertion.assertion)
      neighbors := neighbours.map (edge_view py)
      graph_backed := stores.graph.durable }

variable {py cast deps embed}

/-- A call that is not refused and whose store answers comes to the graph, which answers too. -/
theorem run_get_entity_eq {plan : Plan} {context : ToolContext} {arguments : JsonObj}
    {stores : Stores dumps} :
    run_get_entity py cast deps embed plan context arguments stores = (do
      let entity_id ← require_entity_id py arguments
      let as_of ← parse_as_of py arguments
      let hits ← ToolError.lift
        (entity_hits cast deps embed plan context entity_id (as_of.map Prod.fst) stores.db)
      .ok
        { entity_id := entity_id
          «namespace» := context.namespace
          as_of := as_of.map Prod.snd
          assertions := grouped py (hits.map ScoredAssertion.assertion)
          neighbors := (outgoing entity_id (stores.graph.leaving entity_id)).map (edge_view py)
          graph_backed := stores.graph.durable }) := by
  simp only [run_get_entity, neighbors_one, ToolError.lift, bind, Except.bind]

/-! ### What the vector half shows -/

variable {context : ToolContext} {entity_id : EntityId} {as_of : Option Time} {db : Db} {plan : Plan}

theorem entity_rows_indexed {r : AssertionRow} (h : r ∈ entity_rows cast context entity_id none db) :
    r ∈ partial_index db := selected_indexed h

/-- Whatever is scanned, it comes to the entity's rows exactly where there are none or the index has no more
    rows than a scan takes. -/
theorem full_scans_come_iff (h : db.ids.Nodup) :
    (∀ plan : Plan, plan.Conforms db → plan.Full db →
      ∀ r ∈ entity_rows cast context entity_id none db, r ∈ (plan.view db).assertions) ↔
      (entity_rows cast context entity_id none db ≠ [] → (partial_index db).length ≤ EF_SEARCH) := by
  have hsome : (∃ r ∈ partial_index db, r ∈ entity_rows cast context entity_id none db) ↔
      entity_rows cast context entity_id none db ≠ [] := by
    constructor
    · rintro ⟨r, -, hr⟩
      exact List.ne_nil_of_mem hr
    · intro hne
      obtain ⟨r, hr⟩ := List.exists_mem_of_ne_nil _ hne
      exact ⟨r, entity_rows_indexed hr, hr⟩
  rw [← hsome, ← full_scans_cover_iff h]
  constructor
  · exact fun hall plan hplan hfull r _ hr => hall plan hplan hfull r hr
  · exact fun hall plan hplan hfull r hr => hall plan hplan hfull r (entity_rows_indexed hr) hr

theorem bound_entity (ns : Namespace) (hcast : (cast entity_id).isSome = true) :
    bound_clauses cast ns [("subject_id", entity_id)] as_of = .ok (entity_clauses ns entity_id as_of) := by
  cases as_of <;> simp [bound_clauses, predicates, entity_clauses, ALWAYS, temporal, collect, filter_clause,
    Clause.bind, hcast, bind, Except.bind]

theorem mem_group_under {predicate : String} {v w : AssertionView} :
    ∀ {groups : List (String × List AssertionView)},
      w ∈ (group_under predicate v groups).flatMap Prod.snd ↔ w ∈ groups.flatMap Prod.snd ∨ w = v
  | [] => by simp [group_under]
  | (p, views) :: rest => by
      rw [group_under]
      split
      · simp only [List.flatMap_cons, List.mem_append, List.mem_singleton]
        tauto
      · rw [List.flatMap_cons, List.flatMap_cons, List.mem_append, List.mem_append, mem_group_under, or_assoc]

/-- Grouping loses no assertion and adds none. -/
theorem mem_grouped {assertions : List StoredAssertion} {w : AssertionView} :
    w ∈ (grouped py assertions).flatMap Prod.snd ↔ w ∈ assertions.map (assertion_view py) := by
  have hfold : ∀ {as : List StoredAssertion} {groups : List (String × List AssertionView)},
      w ∈ (as.foldl (fun groups a => group_under a.predicate (assertion_view py a) groups) groups).flatMap
        Prod.snd ↔ w ∈ groups.flatMap Prod.snd ∨ w ∈ as.map (assertion_view py) := by
    intro as
    induction as with
    | nil => simp
    | cons a as ih =>
        intro groups
        rw [List.foldl_cons, ih, mem_group_under, List.map_cons, List.mem_cons, or_assoc]
  rw [grouped, hfold]
  simp

theorem grouped_ids {hits : List ScoredAssertion} {id : AssertionId} :
    id ∈ ((grouped py (hits.map ScoredAssertion.assertion)).flatMap Prod.snd).map
        AssertionView.assertion_id ↔ id ∈ hits.map fun hit => hit.assertion.assertion_id := by
  constructor
  · intro h
    obtain ⟨w, hw, rfl⟩ := List.mem_map.mp h
    obtain ⟨a, ha, rfl⟩ := List.mem_map.mp (mem_grouped.mp hw)
    obtain ⟨hit, hhit, rfl⟩ := List.mem_map.mp ha
    exact List.mem_map_of_mem (f := fun hit => hit.assertion.assertion_id) hhit
  · intro h
    obtain ⟨hit, hhit, rfl⟩ := List.mem_map.mp h
    exact List.mem_map.mpr ⟨assertion_view py hit.assertion,
      mem_grouped.mpr (List.mem_map_of_mem (List.mem_map_of_mem hhit)), rfl⟩

end GuardMem
