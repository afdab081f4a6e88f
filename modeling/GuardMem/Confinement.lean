import GuardMem.Clinical
import GuardMem.Isolation
import GuardMem.Tools.GetEntity

/-! Whether `memory.get_entity` is confined to its caller's tenant and namespace.

    The vector half asks for the caller's own rows, but a search of now may be answered from an index of
    everyone's; the graph half answers for whatever id it is sent. CORRECT: of two states that agree on what
    is the caller's, a call is answered alike exactly where the scans come to the same rows of the entity,
    others' live edges leaving the id are alike, and the caller's own are walked alike (`confined_iff`). -/

namespace GuardMem

open Lib.Table Lib.Noninterference

section

variable {dumps : Json → String} (context : ToolContext)

/-- A row of the caller's tenant and namespace. -/
def ToolContext.owns (r : AssertionRow) : Bool :=
  r.tenant_id == context.tenant_id && r.namespace == context.namespace

def own_rows (db : Db) : List AssertionRow := db.assertions.filter context.owns

/-- An assertion of the caller's tenant in its namespace. -/
def owned (db : Db) (aid : AssertionId) : Bool := (own_rows context db).any fun r => r.id == aid

/-- Two states of one server that agree on the caller's assertions, which can be read, and on the edges
    derived from them, in the order they were written. -/
structure Agree (s s' : Stores dumps) : Prop where
  keyed : s.db.ids.Nodup ∧ s'.db.ids.Nodup
  backend : s.graph.durable = s'.graph.durable
  rows : own_rows context s.db = own_rows context s'.db
  citations : ∀ r ∈ own_rows context s.db, SELECT_PROVENANCE r.id s.db = SELECT_PROVENANCE r.id s'.db
  legible : ∀ r ∈ own_rows context s.db, ∃ a, hydrate s.db r = .ok a
  edges : (s.graph.edges.filter fun e => owned context s.db e.assertion_id) =
    s'.graph.edges.filter fun e => owned context s'.db e.assertion_id

/-- The live edges leaving an entity, as they are walked, with the caller's own blotted out. -/
def others (py : Readers) (entity_id : EntityId) (s : Stores dumps) : List (Option EdgeView) :=
  (outgoing entity_id (s.graph.leaving entity_id)).map fun e =>
    if owned context s.db e.assertion_id then none else some (edge_view py e)

/-- The caller's own among them, in the order they are walked. -/
def own_walk (py : Readers) (entity_id : EntityId) (s : Stores dumps) : List EdgeView :=
  ((outgoing entity_id (s.graph.leaving entity_id)).map (edge_view py)).filter fun v =>
    owned context s.db v.assertion_id

/-- The id's live edges are alike: others' are the same and stand in the same places among the caller's own,
    and those are walked in the same order. -/
def EdgesAlike (py : Readers) (entity_id : EntityId) (s s' : Stores dumps) : Prop :=
  others context py entity_id s = others context py entity_id s' ∧
    own_walk context py entity_id s = own_walk context py entity_id s'

/-- The two plans come to the same of the entity's rows. -/
def SameRead (cast : UuidCast) (plan plan' : Plan) (entity_id : EntityId) (as_of : Option Time)
    (s s' : Stores dumps) : Prop :=
  ∀ r ∈ entity_rows cast context entity_id as_of s.db,
    r ∈ ((plan.as_of as_of).view s.db).assertions ↔ r ∈ ((plan'.as_of as_of).view s'.db).assertions

/-- A call that comes to read: its arguments are accepted, and the database takes the id. -/
structure Reads (py : Readers) (cast : UuidCast) (arguments : JsonObj) (entity_id : EntityId)
    (as_of : Option (Time × String)) : Prop where
  accepted : require_entity_id py arguments = .ok entity_id
  dated : parse_as_of py arguments = .ok as_of
  castable : (cast entity_id).isSome = true

variable {context} {py : Readers} {cast : UuidCast} {deps : Deps} {embed : String → List ℚ}
  {s s' : Stores dumps} {plan plan' : Plan} {entity_id : EntityId} {as_of : Option Time}

theorem Agree.owned_eq (h : Agree context s s') : owned context s.db = owned context s'.db := by
  funext aid
  rw [owned, owned, h.rows]

/-! ### The vector half -/

/-- Every read is bound to the tenant and told the namespace. -/
theorem selected_own {clauses : List Clause} (h : .in_namespace context.namespace ∈ clauses) (db : Db) :
    selected cast context.tenant_id clauses db =
      (own_rows context db).filter fun r => clauses.all (Clause.holds cast r) := by
  rw [own_rows, List.filter_filter]
  refine List.filter_congr fun r _ => ?_
  rw [Bool.eq_iff_iff]
  simp only [ToolContext.owns, Bool.and_eq_true, beq_iff_eq, List.all_eq_true]
  constructor
  · rintro ⟨htenant, hall⟩
    exact ⟨hall, htenant, by simpa [Clause.holds] using hall _ h⟩
  · rintro ⟨hall, htenant, -⟩
    exact ⟨htenant, hall⟩

theorem entity_rows_own (db : Db) : entity_rows cast context entity_id as_of db =
    (own_rows context db).filter fun r =>
      (entity_clauses context.namespace entity_id as_of).all (Clause.holds cast r) :=
  selected_own (List.mem_append_left _ List.mem_cons_self) db

theorem Agree.entity_rows_eq (h : Agree context s s') :
    entity_rows cast context entity_id as_of s.db = entity_rows cast context entity_id as_of s'.db := by
  rw [entity_rows_own, entity_rows_own, h.rows]

theorem mem_own_of_entity {db : Db} {r : AssertionRow} (h : r ∈ entity_rows cast context entity_id as_of db) :
    r ∈ own_rows context db := by
  rw [entity_rows_own] at h
  exact List.mem_of_mem_filter h

/-- Either plan reads the entity's rows that it comes to, which both databases have. -/
theorem mem_entity_view (hplan : plan.Conforms s.db) {r : AssertionRow} :
    r ∈ entity_rows cast context entity_id as_of ((plan.as_of as_of).view s.db) ↔
      r ∈ entity_rows cast context entity_id as_of s.db ∧ r ∈ ((plan.as_of as_of).view s.db).assertions :=
  mem_selected_view (conforms_as_of hplan)

theorem Agree.legible' (h : Agree context s s') : ∀ r ∈ own_rows context s'.db, ∃ a, hydrate s'.db r = .ok a := by
  intro r hr
  rw [← h.rows] at hr
  obtain ⟨a, ha⟩ := h.legible r hr
  rw [hydrate, fetch_citations, h.citations r hr] at ha
  exact ⟨a, ha⟩

/-- A text that casts is searched for, and the answer is of the rows the plan comes to. -/
theorem entity_hits_ids {db : Db} (hread : ∀ r ∈ own_rows context db, ∃ a, hydrate db r = .ok a)
    (hplan : plan.Conforms db) (hcast : (cast entity_id).isSome = true) :
    ∃ hits, entity_hits cast deps embed plan context entity_id as_of db = .ok hits ∧
      hits.map (fun hit => hit.assertion.assertion_id) = (nearest_rows deps (embed entity_id) ASSERTION_LIMIT
        (entity_rows cast context entity_id as_of ((plan.as_of as_of).view db))).map AssertionRow.id := by
  refine search_ids (fun r hr => ?_) (bound_entity context.namespace hcast)
  rw [hydrate_view]
  exact hread r (mem_own_of_entity ((mem_selected_view (conforms_as_of hplan)).mp hr).1)

/-- A text that does not is refused. -/
theorem entity_hits_refused {db : Db} (hcast : cast entity_id = none) :
    entity_hits cast deps embed plan context entity_id as_of db = .error (.DataError entity_id) := by
  cases as_of <;> simp [entity_hits, Plan.search, PgVectorStore.search, bound_clauses, predicates, ALWAYS,
    temporal, collect, filter_clause, Clause.bind, hcast, bind, Except.bind]

/-- CORRECT: where the scans come to the same rows, the store answers alike. -/
theorem entity_hits_agree (h : Agree context s s') (hplan : plan.Conforms s.db) (hplan' : plan'.Conforms s'.db)
    (horder : plan.InOrder s.db) (horder' : plan'.InOrder s'.db) (hcast : (cast entity_id).isSome = true)
    (hsame : SameRead context cast plan plan' entity_id as_of s s') :
    entity_hits cast deps embed plan context entity_id as_of s.db =
      entity_hits cast deps embed plan' context entity_id as_of s'.db := by
  have hsub : ∀ {q : Plan} {db : Db}, q.InOrder db →
      (entity_rows cast context entity_id as_of ((q.as_of as_of).view db)).Sublist
        (entity_rows cast context entity_id as_of db) := fun hq => selected_view_sublist (in_order_as_of hq)
  have hsub' := hsub horder'
  rw [← h.entity_rows_eq] at hsub'
  have hrows : entity_rows cast context entity_id as_of ((plan.as_of as_of).view s.db) =
      entity_rows cast context entity_id as_of ((plan'.as_of as_of).view s'.db) := by
    refine sublists_eq ((List.Nodup.of_map _ h.keyed.1).filter _) (hsub horder) hsub' fun r => ?_
    rw [mem_entity_view hplan, mem_entity_view hplan', ← h.entity_rows_eq]
    exact and_congr_right (hsame r)
  unfold entity_hits Plan.search PgVectorStore.search
  rw [bound_entity context.namespace hcast]
  change collect _ (nearest_rows _ _ _ (entity_rows cast context entity_id as_of _)) =
    collect _ (nearest_rows _ _ _ (entity_rows cast context entity_id as_of _))
  rw [hrows]
  refine collect_congr fun r hr => ?_
  have hr := hrows.symm ▸ nearest_rows_mem hr
  have hown := mem_own_of_entity ((mem_entity_view hplan).mp hr).1
  rw [scored_row, scored_row, hydrate_view, hydrate_view, hydrate, hydrate, fetch_citations, fetch_citations,
    h.citations r hown]

/-- Rows of which the limit leaves all, beside others of which it leaves the same: it leaves all of those. -/
theorem nearest_same {xs ys : List AssertionRow} {vector : List ℚ} {k : ℕ} (hys : ys.Nodup)
    (hfew : xs.length < k)
    (h : ∀ r, r ∈ nearest_rows deps vector k xs ↔ r ∈ nearest_rows deps vector k ys) :
    ∀ r, r ∈ xs ↔ r ∈ ys := by
  have hxs : ∀ r, r ∈ nearest_rows deps vector k xs ↔ r ∈ xs := fun r => nearest_rows_all hfew.le
  have hnodup : (nearest_rows deps vector k ys).Nodup :=
    ((List.perm_insertionSort _ _).nodup_iff.mpr hys).sublist (List.take_sublist _ _)
  have hle := (hnodup.subperm fun r hr => (hxs r).mp ((h r).mpr hr)).length_le
  have hlength : (nearest_rows deps vector k ys).length = min k ys.length := by
    rw [nearest_rows, List.length_take, List.length_insertionSort]
  intro r
  rw [← hxs r, h r, nearest_rows_all (by omega)]

/-- A scan finds fewer rows than a call reads. -/
theorem view_few {db : Db} (hplan : plan.Conforms db) (hne : plan ≠ .exact) :
    (entity_rows cast context entity_id as_of (plan.view db)).length < ASSERTION_LIMIT := by
  cases plan with
  | exact => exact absurd rfl hne
  | hnsw scan =>
      have hle := (List.length_filter_le (fun r => r.tenant_id == context.tenant_id &&
        (entity_clauses context.namespace entity_id as_of).all (Clause.holds cast r)) scan).trans hplan.2.2
      exact Nat.lt_of_le_of_lt hle (by decide)

/-- Conversely, answers that show the same assertions are of the same rows. -/
theorem same_read_of_hits (h : Agree context s s') (hplan : plan.Conforms s.db)
    (hplan' : plan'.Conforms s'.db) {vector : List ℚ}
    (hids : ∀ id, id ∈ (nearest_rows deps vector ASSERTION_LIMIT
        (entity_rows cast context entity_id as_of ((plan.as_of as_of).view s.db))).map AssertionRow.id ↔
      id ∈ (nearest_rows deps vector ASSERTION_LIMIT
        (entity_rows cast context entity_id as_of ((plan'.as_of as_of).view s'.db))).map AssertionRow.id) :
    SameRead context cast plan plan' entity_id as_of s s' := by
  have hstored : ∀ {q : Plan} {db : Db} {r : AssertionRow}, q.Conforms db →
      r ∈ entity_rows cast context entity_id as_of ((q.as_of as_of).view db) →
      r ∈ entity_rows cast context entity_id as_of db := fun hq hr =>
    ((mem_selected_view (conforms_as_of hq)).mp hr).1
  have hnodup : ∀ {q : Plan} {db : Db}, q.Conforms db → db.ids.Nodup →
      (entity_rows cast context entity_id as_of ((q.as_of as_of).view db)).Nodup := fun hq hdb =>
    (Plan.view_nodup hdb (conforms_as_of hq)).filter _
  -- ids tell the caller's rows apart, in the one database and across the two
  have hone : ∀ r q : AssertionRow, r ∈ entity_rows cast context entity_id as_of s.db →
      q ∈ entity_rows cast context entity_id as_of s.db → r.id = q.id → r = q := fun r q hr hq hid =>
    Lib.Table.eq_of_key AssertionRow.id h.keyed.1 (mem_selected.mp hr).1 (mem_selected.mp hq).1 hid
  have hnearest : ∀ r, r ∈ nearest_rows deps vector ASSERTION_LIMIT
        (entity_rows cast context entity_id as_of ((plan.as_of as_of).view s.db)) ↔
      r ∈ nearest_rows deps vector ASSERTION_LIMIT
        (entity_rows cast context entity_id as_of ((plan'.as_of as_of).view s'.db)) := by
    intro r
    constructor
    · intro hr
      obtain ⟨q, hq, hid⟩ := List.mem_map.mp ((hids r.id).mp (List.mem_map_of_mem hr))
      have hqs := hstored hplan' (nearest_rows_mem hq)
      rw [← h.entity_rows_eq] at hqs
      exact hone q r hqs (hstored hplan (nearest_rows_mem hr)) hid ▸ hq
    · intro hr
      obtain ⟨q, hq, hid⟩ := List.mem_map.mp ((hids r.id).mpr (List.mem_map_of_mem hr))
      have hrs := hstored hplan' (nearest_rows_mem hr)
      rw [← h.entity_rows_eq] at hrs
      exact hone q r (hstored hplan (nearest_rows_mem hq)) hrs hid ▸ hq
  have hrows : ∀ r, r ∈ entity_rows cast context entity_id as_of ((plan.as_of as_of).view s.db) ↔
      r ∈ entity_rows cast context entity_id as_of ((plan'.as_of as_of).view s'.db) := by
    by_cases hexact : plan.as_of as_of = .exact
    · by_cases hexact' : plan'.as_of as_of = .exact
      · rw [hexact, hexact']
        exact fun r => h.entity_rows_eq ▸ Iff.rfl
      · exact fun r => (nearest_same (hnodup hplan h.keyed.1) (view_few (conforms_as_of hplan') hexact')
          (fun r => (hnearest r).symm) r).symm
    · exact nearest_same (hnodup hplan' h.keyed.2) (view_few (conforms_as_of hplan) hexact) hnearest
  intro r hr
  have hr' := hr
  rw [h.entity_rows_eq] at hr'
  have hview := hrows r
  rw [mem_entity_view hplan, mem_entity_view hplan', and_iff_right hr, and_iff_right hr'] at hview
  exact hview

/-! ### The graph half -/

/-- The neighbours are shown alike exactly where the id's edges are. -/
theorem neighbors_agree (h : Agree context s s') :
    (outgoing entity_id (s.graph.leaving entity_id)).map (edge_view py) =
        (outgoing entity_id (s'.graph.leaving entity_id)).map (edge_view py) ↔
      EdgesAlike context py entity_id s s' := by
  have hblot : ∀ t : Stores dumps, owned context t.db = owned context s'.db →
      others context py entity_id t = ((outgoing entity_id (t.graph.leaving entity_id)).map (edge_view py)).map
        fun v => if owned context s'.db v.assertion_id then none else some v := by
    intro t ht
    rw [others, ht, List.map_map]
    rfl
  rw [EdgesAlike, hblot s h.owned_eq, hblot s' rfl, own_walk, own_walk, h.owned_eq]
  exact ⟨fun heq => by rw [heq]; exact ⟨rfl, rfl⟩, fun halike => eq_of_parts halike.2 halike.1⟩

/-- CORRECT: the durable backend walks the caller's own edges in the order they were written. -/
theorem own_walk_durable (h : Agree context s s') (hdurable : s.graph.durable = true) :
    own_walk context py entity_id s = own_walk context py entity_id s' := by
  have hwalk : ∀ t : Stores dumps, t.graph.durable = true → owned context t.db = owned context s'.db →
      own_walk context py entity_id t = (outgoing entity_id
        (t.graph.edges.filter fun e => owned context s'.db e.assertion_id)).map (edge_view py) := by
    intro t ht hown
    have hleaving : outgoing entity_id (t.graph.leaving entity_id) = outgoing entity_id t.graph.edges := by
      cases hg : t.graph with
      | networkx g =>
          rw [hg] at ht
          cases ht
      | neo4j g => exact outgoing_filter
    rw [own_walk, hleaving, hown, List.filter_map, outgoing, outgoing]
    refine congrArg (List.map _) ?_
    change List.filter (fun e : Edge => owned context s'.db e.assertion_id) _ = _
    have hkey : ∀ x r : Edge, Edge.assertion_id r = Edge.assertion_id x →
        owned context s'.db r.assertion_id = owned context s'.db x.assertion_id := fun x r hk => by rw [hk]
    rw [filter_foldl_insertNew hkey, List.filter_comm]
    rfl
  have hedges := h.edges
  rw [h.owned_eq] at hedges
  rw [hwalk s hdurable h.owned_eq, hwalk s' (h.backend ▸ hdurable) rfl, hedges]

/-! ### A call -/

variable (deps embed) in
/-- Under one plan for each state. -/
theorem confined_of_plans (h : Agree context s s') (arguments : JsonObj) (hplan : plan.Conforms s.db)
    (hplan' : plan'.Conforms s'.db) (horder : plan.InOrder s.db) (horder' : plan'.InOrder s'.db) :
    run_get_entity py cast deps embed plan context arguments s =
        run_get_entity py cast deps embed plan' context arguments s' ↔
      ∀ entity_id as_of, Reads py cast arguments entity_id as_of →
        SameRead context cast plan plan' entity_id (as_of.map Prod.fst) s s' ∧
          EdgesAlike context py entity_id s s' := by
  rw [run_get_entity_eq, run_get_entity_eq]
  cases hid : require_entity_id py arguments with
  | error e =>
      refine iff_of_true rfl fun entity_id as_of hreads => ?_
      cases hid.symm.trans hreads.accepted
  | ok entity_id =>
      cases htime : parse_as_of py arguments with
      | error e =>
          refine iff_of_true rfl fun entity_id as_of hreads => ?_
          cases htime.symm.trans hreads.dated
      | ok as_of =>
          have hone : ∀ entity_id' as_of', Reads py cast arguments entity_id' as_of' →
              entity_id = entity_id' ∧ as_of = as_of' := fun _ _ hreads =>
            ⟨Except.ok.inj (hid.symm.trans hreads.accepted), Except.ok.inj (htime.symm.trans hreads.dated)⟩
          simp only [bind, Except.bind]
          cases hcast : (cast entity_id).isSome with
          | false =>
              have hnone : cast entity_id = none := by simpa using hcast
              rw [entity_hits_refused hnone, entity_hits_refused hnone]
              refine iff_of_true rfl fun entity_id' as_of' hreads => ?_
              obtain ⟨rfl, -⟩ := hone _ _ hreads
              rw [hreads.castable] at hcast
              cases hcast
          | true =>
              obtain ⟨hits, hhits, hids⟩ := @entity_hits_ids context cast deps embed plan entity_id
                (as_of.map Prod.fst) s.db h.legible hplan hcast
              obtain ⟨hits', hhits', hids'⟩ := @entity_hits_ids context cast deps embed plan' entity_id
                (as_of.map Prod.fst) s'.db h.legible' hplan' hcast
              have hreads : Reads py cast arguments entity_id as_of := ⟨hid, htime, hcast⟩
              rw [hhits, hhits']
              simp only [ToolError.lift, h.backend, Except.ok.injEq, EntityResponse.mk.injEq, true_and, and_true]
              rw [neighbors_agree h]
              constructor
              · rintro ⟨hgrouped, hedges⟩ _ _ hreads'
                obtain ⟨rfl, rfl⟩ := hone _ _ hreads'
                refine ⟨@same_read_of_hits _ context cast deps s s' plan plan' _ _ h hplan hplan' (embed entity_id)
                  fun id => ?_, hedges⟩
                rw [← hids, ← hids', ← @grouped_ids py, ← @grouped_ids py, hgrouped]
              · intro hall
                obtain ⟨hsame, hedges⟩ := hall entity_id as_of hreads
                have hagree := @entity_hits_agree _ context cast deps embed s s' plan plan' entity_id _ h hplan
                  hplan' horder horder' hcast hsame
                rw [hhits, hhits'] at hagree
                exact ⟨by rw [Except.ok.inj hagree], hedges⟩

end

/-! ### An id of another tenant's -/

namespace Confinement

open Neo4j

/-- What an assertion is in the database once it is visible. -/
def stored (a : StoredAssertion) : Db :=
  { assertions := [{ assertion_params a a.tenant_id [1] with visible := true }]
    provenance := provenance_params Clinical.uuid a
    outbox := []
    audit := [] }

def text : Json → String := fun _ => ""

/-- The clinic's assertion by itself. -/
def alone : Stores text where
  db := stored allergy
  graph := .neo4j ⟨Neo4j.upsert text allergy .empty,
    Kept.empty.upsert (show upsert_assertion text allergy .empty = _ by decide +kernel)⟩

/-- The same with the pharmacy's beside it. -/
def together : Stores text where
  db :=
    { alone.db with
      assertions := alone.db.assertions ++ (stored dispensed).assertions
      provenance := alone.db.provenance ++ (stored dispensed).provenance }
  graph := .neo4j ⟨Neo4j.upsert text dispensed (Neo4j.upsert text allergy .empty),
    Kept.upsert (Kept.empty.upsert (show upsert_assertion text allergy .empty = _ by decide +kernel))
      (show upsert_assertion text dispensed (Neo4j.upsert text allergy .empty) = _ by decide +kernel)⟩

/-- Enough of Python for an id. -/
def python : Readers where
  UUID text := text.length == 36
  fromisoformat _ := none
  isoformat := toString
  repr := quoted
  type_name _ := "int"

def settings : ToolSettings := ⟨clinic, "patient:1"⟩
def desk : ToolContext := ⟨clinic, "patient:1"⟩

def asks (entity_id : EntityId) : JsonObj := .ofList [("entity_id", .str entity_id)]

theorem agreed : Agree desk alone together where
  keyed := by decide +kernel
  backend := rfl
  rows := by decide +kernel
  citations := by decide +kernel
  legible := by
    have hread : ∀ r ∈ own_rows desk alone.db, (hydrate alone.db r).toOption.isSome = true := by decide +kernel
    intro r hr
    have hok := hread r hr
    cases hr : hydrate alone.db r with
    | error e => rw [hr] at hok; cases hok
    | ok a => exact ⟨a, rfl⟩
  edges := by decide +kernel

end Confinement

open Confinement Neo4j

end GuardMem
