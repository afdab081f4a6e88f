import GuardMem.Confinement
import GuardMem.Dispatch
import GuardMem.Retired

/-! Whether the two halves of `memory.get_entity` speak of the same assertions.

    The vector half casts the id it is given, reads at the instant it is given and, where it is given none,
    may be answered from an index scan; the graph half looks the id up as it is spelled and reads what is
    live. CORRECT: over a graph that is up to date the halves agree exactly where the entity's rows leave the
    spelling, the instant and the scan nothing to change (`halves_agree_iff`). A fact asked for as of a day
    before it began is in one half only (`as_of_ignored`), and so is one whose entity is named in capitals
    (`spelling_kept`). -/

namespace GuardMem

open Lib.Table

variable {dumps : Json → String}

/-- The ids under `neighbors`, and those under `assertions`. -/
def EntityResponse.neighbor_ids (response : EntityResponse) : List AssertionId :=
  response.neighbors.map EdgeView.assertion_id

def EntityResponse.assertion_ids (response : EntityResponse) : List AssertionId :=
  (response.assertions.flatMap Prod.snd).map AssertionView.assertion_id

/-- Either half has the ids of the other. -/
def EntityResponse.Agrees (response : EntityResponse) : Prop :=
  ∀ id, id ∈ response.neighbor_ids ↔ id ∈ response.assertion_ids

/-- The call is answered, with two halves that agree. -/
def HalvesAgree (py : Readers) (cast : UuidCast) (deps : Deps) (embed : String → List ℚ) (plan : Plan)
    (context : ToolContext) (arguments : JsonObj) (s : Stores dumps) : Prop :=
  ∃ response, run_get_entity py cast deps embed plan context arguments s = .ok response ∧ response.Agrees

/-- The visible rows of the caller's tenant and namespace. -/
def visible_rows (context : ToolContext) (db : Db) : List AssertionRow :=
  (own_rows context db).filter AssertionRow.visible

/-- A database whose values can be read, and a graph with exactly one edge, up to date, for each of the
    caller's visible rows. A `uuid` column gives back texts that cast to themselves. -/
structure UpToDate (uuid : Uuid5) (cast : UuidCast) (context : ToolContext) (s : Stores dumps) : Prop where
  wf : Wf uuid s.db
  legible : ∀ r ∈ s.db.assertions, (ObjectValue.ofJson r.object_json).isSome = true
  canonical : ∀ r ∈ s.db.assertions, cast r.subject_id = some r.subject_id
  edges : ∀ r ∈ visible_rows context s.db, ∃ e,
    (s.graph.edges.filter fun e => e.assertion_id == r.id) = [e] ∧ r.Shows e ∧ e.valid_to = r.valid_to

/-- A live row of the entity is found as spelled exactly if it can be read, has begun and is one the plan
    comes to, a retired one cannot be read at the instant, and no other row's live edge leaves the text. -/
structure OneView (cast : UuidCast) (context : ToolContext) (plan : Plan) (entity_id : EntityId)
    (as_of : Option Time) (s : Stores dumps) : Prop where
  castable : (cast entity_id).isSome = true
  live : ∀ r ∈ visible_rows context s.db, cast entity_id = some r.subject_id → r.valid_to = none →
    (r.subject_id = entity_id ↔ r.retracted_at = none ∧ r.embedding ≠ none ∧
      (∀ t ∈ as_of, r.valid_from ≤ t) ∧ r ∈ ((plan.as_of as_of).view s.db).assertions)
  retired : ∀ r ∈ visible_rows context s.db, cast entity_id = some r.subject_id → ∀ u ∈ r.valid_to,
    ∀ t ∈ as_of, r.valid_from ≤ t → t < u → r.retracted_at ≠ none ∨ r.embedding = none
  others : ∀ e ∈ s.graph.edges, e.subject_id = entity_id → e.valid_to = none →
    ∃ r ∈ visible_rows context s.db, r.id = e.assertion_id

variable {py : Readers} {cast : UuidCast} {deps : Deps} {embed : String → List ℚ} {context : ToolContext}
  {arguments : JsonObj} {plan : Plan} {entity_id : EntityId} {as_of : Option Time} {s : Stores dumps}
  {uuid : Uuid5} {r : AssertionRow}

/-! ### What each half answers with -/

/-- One hop shows the assertions whose live edges leave the text. -/
theorem outgoing_ids {id : AssertionId} {edges : List Edge} :
    id ∈ ((outgoing entity_id edges).map (edge_view py)).map EdgeView.assertion_id ↔
      ∃ e ∈ edges, e.subject_id = entity_id ∧ e.valid_to = none ∧ e.assertion_id = id := by
  rw [List.map_map, outgoing]
  refine keys_foldl_insertNew.trans ?_
  simp only [List.map_nil, List.not_mem_nil, false_or, List.mem_map, List.mem_filter, Bool.and_eq_true,
    beq_iff_eq, Option.isNone_iff_eq_none, and_assoc]
  rfl

/-- The rows the vector half reads are the caller's visible ones of the entity the text casts to. -/
theorem mem_entity_rows : r ∈ entity_rows cast context entity_id as_of s.db ↔
    r ∈ visible_rows context s.db ∧ cast entity_id = some r.subject_id ∧ r.retracted_at = none ∧
      r.embedding ≠ none ∧ (temporal as_of).holds cast r = true := by
  simp only [entity_rows, mem_selected, entity_clauses, ALWAYS, List.cons_append, List.nil_append, List.forall_mem_cons,
    List.not_mem_nil, false_implies, implies_true, and_true, Clause.holds, visible_rows, own_rows,
    List.mem_filter, ToolContext.owns, Bool.and_eq_true, beq_iff_eq, Option.isNone_iff_eq_none,
    Option.isSome_iff_ne_none]
  tauto

theorem visible_rows_stored (h : r ∈ visible_rows context s.db) : r ∈ s.db.assertions :=
  List.mem_of_mem_filter (List.mem_of_mem_filter h)

/-! ### Where they agree -/

/-- Of the rows of one entity, those read at the instant are those live under the text as it is spelled. -/
def RowsAgree (cast : UuidCast) (context : ToolContext) (plan : Plan) (entity_id : EntityId)
    (as_of : Option Time) (s : Stores dumps) : Prop :=
  ∀ id, (∃ e ∈ s.graph.edges, e.subject_id = entity_id ∧ e.valid_to = none ∧ e.assertion_id = id) ↔
    ∃ r ∈ entity_rows cast context entity_id as_of ((plan.as_of as_of).view s.db), r.id = id

/-- A visible row has a live edge leaving the text exactly if it is live and stored under it. -/
theorem UpToDate.edge_iff (h : UpToDate uuid cast context s) (hr : r ∈ visible_rows context s.db) :
    (∃ e ∈ s.graph.edges, e.subject_id = entity_id ∧ e.valid_to = none ∧ e.assertion_id = r.id) ↔
      r.subject_id = entity_id ∧ r.valid_to = none := by
  obtain ⟨e, hone, hshows, hend⟩ := h.edges r hr
  have hmem : ∀ {f : Edge}, f ∈ s.graph.edges ∧ f.assertion_id = r.id ↔ f = e := by
    intro f
    rw [← List.mem_singleton (b := e), ← hone, List.mem_filter, beq_iff_eq]
  constructor
  · rintro ⟨f, hf, hsubject, hlive, hid⟩
    obtain rfl := hmem.mp ⟨hf, hid⟩
    exact ⟨hshows.subject_id ▸ hsubject, hend ▸ hlive⟩
  · rintro ⟨hsubject, hlive⟩
    obtain ⟨he, hid⟩ := hmem.mpr (rfl : e = e)
    exact ⟨e, he, hshows.subject_id.trans hsubject, hend.trans hlive, hid⟩

theorem temporal_live (hlive : r.valid_to = none) :
    (temporal as_of).holds cast r = true ↔ ∀ t ∈ as_of, r.valid_from ≤ t := by
  cases as_of with
  | none => simp [temporal, Clause.holds, hlive]
  | some t => simp [temporal, Clause.holds, AssertionRow.valid_at, hlive]

theorem temporal_retired {u : Time} (hend : r.valid_to = some u) :
    (temporal as_of).holds cast r = true ↔ ∃ t ∈ as_of, r.valid_from ≤ t ∧ t < u := by
  cases as_of with
  | none => simp [temporal, Clause.holds, hend]
  | some t => simp [temporal, Clause.holds, AssertionRow.valid_at, hend]

/-- Row by row, over a graph that is up to date. -/
theorem UpToDate.rows_agree_iff (h : UpToDate uuid cast context s) (hplan : plan.Conforms s.db) :
    RowsAgree cast context plan entity_id as_of s ↔
      (∀ r ∈ visible_rows context s.db, (r.subject_id = entity_id ∧ r.valid_to = none) ↔
        (cast entity_id = some r.subject_id ∧ r.retracted_at = none ∧ r.embedding ≠ none ∧
          (temporal as_of).holds cast r = true ∧ r ∈ ((plan.as_of as_of).view s.db).assertions)) ∧
      ∀ e ∈ s.graph.edges, e.subject_id = entity_id → e.valid_to = none →
        ∃ r ∈ visible_rows context s.db, r.id = e.assertion_id := by
  have hrows : ∀ {q : AssertionRow},
      q ∈ entity_rows cast context entity_id as_of ((plan.as_of as_of).view s.db) ↔
        (q ∈ visible_rows context s.db ∧ cast entity_id = some q.subject_id ∧ q.retracted_at = none ∧
          q.embedding ≠ none ∧ (temporal as_of).holds cast q = true) ∧
        q ∈ ((plan.as_of as_of).view s.db).assertions :=
    (mem_selected_view (conforms_as_of hplan)).trans (and_congr_left fun _ => mem_entity_rows)
  have hread : ∀ r ∈ visible_rows context s.db,
      ((∃ q ∈ entity_rows cast context entity_id as_of ((plan.as_of as_of).view s.db), q.id = r.id) ↔
        (cast entity_id = some r.subject_id ∧ r.retracted_at = none ∧ r.embedding ≠ none ∧
          (temporal as_of).holds cast r = true ∧ r ∈ ((plan.as_of as_of).view s.db).assertions)) := by
    intro r hr
    constructor
    · rintro ⟨q, hq, hid⟩
      obtain ⟨⟨hvisible, hnamed, hunretracted, hembedded, hholds⟩, hview⟩ := hrows.mp hq
      obtain rfl := h.wf.eq_of_id (visible_rows_stored hvisible) (visible_rows_stored hr) hid
      exact ⟨hnamed, hunretracted, hembedded, hholds, hview⟩
    · rintro ⟨hnamed, hunretracted, hembedded, hholds, hview⟩
      exact ⟨r, hrows.mpr ⟨⟨hr, hnamed, hunretracted, hembedded, hholds⟩, hview⟩, rfl⟩
  constructor
  · intro hagree
    refine ⟨fun r hr => ?_, fun e he hsubject hlive => ?_⟩
    · rw [← h.edge_iff hr, ← hread r hr]
      exact hagree r.id
    · obtain ⟨r, hr, hid⟩ := (hagree e.assertion_id).mp ⟨e, he, hsubject, hlive, rfl⟩
      exact ⟨r, (hrows.mp hr).1.1, hid⟩
  · rintro ⟨hall, hothers⟩ id
    constructor
    · rintro ⟨e, he, hsubject, hlive, rfl⟩
      obtain ⟨r, hr, hid⟩ := hothers e he hsubject hlive
      have hedge := (h.edge_iff hr).mp ⟨e, he, hsubject, hlive, hid.symm⟩
      rw [← hid]
      exact (hread r hr).mpr ((hall r hr).mp hedge)
    · rintro ⟨r, hr, rfl⟩
      have hvisible := (hrows.mp hr).1.1
      exact (h.edge_iff hvisible).mpr ((hall r hvisible).mpr ((hread r hvisible).mp ⟨r, hr, rfl⟩))

theorem UpToDate.one_view_iff (h : UpToDate uuid cast context s) (hplan : plan.Conforms s.db) :
    OneView cast context plan entity_id as_of s ↔
      (cast entity_id).isSome = true ∧ RowsAgree cast context plan entity_id as_of s := by
  rw [h.rows_agree_iff hplan]
  constructor
  · rintro ⟨hcast, hlive, hretired, hothers⟩
    refine ⟨hcast, fun r hr => ?_, hothers⟩
    constructor
    · rintro ⟨hsubject, hend⟩
      have hnamed : cast entity_id = some r.subject_id := by
        rw [← hsubject]
        exact h.canonical r (visible_rows_stored hr)
      obtain ⟨hunretracted, hembedded, hbegun, hview⟩ := (hlive r hr hnamed hend).mp hsubject
      exact ⟨hnamed, hunretracted, hembedded, (temporal_live hend).mpr hbegun, hview⟩
    · rintro ⟨hnamed, hunretracted, hembedded, hholds, hview⟩
      cases hend : r.valid_to with
      | none =>
          exact ⟨(hlive r hr hnamed hend).mpr ⟨hunretracted, hembedded, (temporal_live hend).mp hholds,
            hview⟩, rfl⟩
      | some u =>
          obtain ⟨t, ht, hfrom, hto⟩ := (temporal_retired hend).mp hholds
          rcases hretired r hr hnamed u hend t ht hfrom hto with hretracted | hbare
          · exact absurd hunretracted hretracted
          · exact absurd hbare hembedded
  · rintro ⟨hcast, hrows, hothers⟩
    refine ⟨hcast, fun r hr hnamed hend => ?_, fun r hr hnamed u hu t ht hfrom hto => ?_, hothers⟩
    · have hrow := hrows r hr
      rw [temporal_live hend] at hrow
      constructor
      · exact fun hsubject => (hrow.mp ⟨hsubject, hend⟩).2
      · exact fun hread => (hrow.mpr ⟨hnamed, hread⟩).1
    · by_contra hread
      push Not at hread
      -- a read as of an instant looks at every row
      have hview : r ∈ ((plan.as_of as_of).view s.db).assertions := by
        rw [Option.mem_def.mp ht]
        exact visible_rows_stored hr
      have hend := (hrows r hr).mpr
        ⟨hnamed, hread.1, hread.2, (temporal_retired hu).mpr ⟨t, ht, hfrom, hto⟩, hview⟩
      rw [hend.2] at hu
      cases hu

/-- Under one plan. -/
theorem halves_agree_of_plan {time : Option (Time × String)} (hid : require_entity_id py arguments = .ok entity_id)
    (htime : parse_as_of py arguments = .ok time) (hgraph : UpToDate uuid cast context s)
    (hfew : (entity_rows cast context entity_id (time.map Prod.fst) s.db).length < ASSERTION_LIMIT)
    (hplan : plan.Conforms s.db) :
    HalvesAgree py cast deps embed plan context arguments s ↔
      OneView cast context plan entity_id (time.map Prod.fst) s := by
  rw [hgraph.one_view_iff hplan, HalvesAgree, run_get_entity_eq, hid, htime]
  simp only [bind, Except.bind, entity_hits]
  cases hcast : (cast entity_id).isSome with
  | false =>
      have hrefused : plan.search cast deps context.tenant_id context.namespace (embed entity_id)
          ASSERTION_LIMIT [("subject_id", entity_id)] (time.map Prod.fst) s.db =
          .error (.DataError entity_id) := by
        rw [Plan.search, PgVectorStore.search, bound_clauses_eq, bound_filters]
        simp only [collect, filter_clause, Clause.bind, hcast, bind, Except.bind]
        rfl
      rw [hrefused]
      simp [ToolError.lift]
  | true =>
      obtain ⟨hits, hhits, hids⟩ := plan_search_rows deps context.tenant_id (embed entity_id) ASSERTION_LIMIT
        hgraph.wf hgraph.legible (conforms_as_of hplan) (bound_entity context.namespace hcast)
      rw [hhits]
      simp only [ToolError.lift, Except.ok.injEq, exists_eq_left', true_and]
      refine forall_congr' fun id => ?_
      rw [EntityResponse.neighbor_ids, EntityResponse.assertion_ids, outgoing_ids, grouped_ids, hids]
      refine iff_congr ?_ ?_
      · simp only [BoundGraph.mem_leaving, and_assoc, and_self_left]
      · rw [List.mem_map]
        simp only [nearest_rows_all ((selected_view_length (conforms_as_of hplan)).trans hfew.le)]
        rfl

/-- CORRECT: for every accepted spelling, every instant and every state in which the graph is up to date
    and fewer rows match than are read, the halves agree exactly where the entity has one view; whatever the
    index scans, exactly where it has one when all rows are looked at and either an instant is given, or none
    of its rows is indexed, or the index has no more rows than a scan takes. -/
theorem halves_agree_iff (py : Readers) (cast : UuidCast) (deps : Deps) (embed : String → List ℚ)
    (uuid : Uuid5) (context : ToolContext) (arguments : JsonObj) (s : Stores dumps) (entity_id : EntityId)
    (as_of : Option (Time × String)) (hid : require_entity_id py arguments = .ok entity_id)
    (htime : parse_as_of py arguments = .ok as_of) (hgraph : UpToDate uuid cast context s)
    (hfew : (entity_rows cast context entity_id (as_of.map Prod.fst) s.db).length < ASSERTION_LIMIT) :
    (∀ plan : Plan, plan.Conforms s.db → (HalvesAgree py cast deps embed plan context arguments s ↔
      OneView cast context plan entity_id (as_of.map Prod.fst) s)) ∧
    ((∀ plan : Plan, plan.Conforms s.db → plan.Full s.db →
        HalvesAgree py cast deps embed plan context arguments s) ↔
      OneView cast context .exact entity_id (as_of.map Prod.fst) s ∧
        (as_of = none → entity_rows cast context entity_id none s.db ≠ [] →
          (partial_index s.db).length ≤ EF_SEARCH)) := by
  have hiff : ∀ plan : Plan, plan.Conforms s.db → (HalvesAgree py cast deps embed plan context arguments s ↔
      OneView cast context plan entity_id (as_of.map Prod.fst) s) :=
    fun plan hplan => halves_agree_of_plan hid htime hgraph hfew hplan
  refine ⟨hiff, ?_⟩
  have hexact : (Plan.exact).Conforms s.db := trivial
  constructor
  · intro h
    have hone := (hiff .exact hexact).mp (h .exact hexact trivial)
    refine ⟨hone, fun hnow => ?_⟩
    subst hnow
    rw [← full_scans_come_iff hgraph.wf.ids_nodup]
    intro plan hplan hfull r hr
    obtain ⟨hvisible, hnamed, hunretracted, hembedded, hholds⟩ := mem_entity_rows.mp hr
    have hlive : r.valid_to = none := by simpa [temporal, Clause.holds] using hholds
    have hfound := (hone.live r hvisible hnamed hlive).mpr
      ⟨hunretracted, hembedded, by simp, visible_rows_stored hvisible⟩
    exact (((hiff plan hplan).mp (h plan hplan hfull)).live r hvisible hnamed hlive).mp hfound |>.2.2.2
  · rintro ⟨hone, hroom⟩ plan hplan hfull
    refine (hiff plan hplan).mpr ⟨hone.castable, fun r hr hnamed hlive => ?_, hone.retired, hone.others⟩
    rw [hone.live r hr hnamed hlive]
    refine and_congr_right fun hunretracted => and_congr_right fun hembedded => and_congr_right fun _ => ?_
    cases as_of with
    | some t => exact iff_of_true (visible_rows_stored hr) (visible_rows_stored hr)
    | none =>
        refine iff_of_true (visible_rows_stored hr) ?_
        have hrow : r ∈ entity_rows cast context entity_id none s.db :=
          mem_entity_rows.mpr ⟨hr, hnamed, hunretracted, hembedded, by simp [temporal, Clause.holds, hlive]⟩
        exact (full_scans_come_iff hgraph.wf.ids_nodup).mpr (hroom rfl) plan hplan hfull r hrow

/-! ### One allergy, asked for in three ways -/

namespace SameEntity

open Neo4j Confinement

/-- The clinic's allergy written and revealed. -/
def admitted : Except Exc Db := do
  .ok (REVEAL_ASSERTION clinic "a1" (← upsert Clinical.deps clinic 20 [allergy.1] Db.empty))

def history : Stores text := ⟨admitted.toOption.getD Db.empty, alone.graph⟩

/-- A `uuid` column writes lower case. -/
def to_uuid : UuidCast := fun text => some (String.ofList (text.toList.map Char.toLower))

/-- Enough of Python for an id and for the day before the allergy was noted. -/
def python : Readers :=
  { Confinement.python with
    fromisoformat := fun text =>
      if text = "1969-12-31T00:00:00+00:00" then some ⟨some (-86400), text⟩ else none }

/-- The patient as of that day. -/
def before_noted : JsonObj :=
  .ofList [("entity_id", .str Neo4j.patient), ("as_of", .str "1969-12-31T00:00:00+00:00")]

theorem admitted_ok : admitted = .ok history.db := by
  have hok : admitted.toOption.isSome = true := by decide +kernel
  unfold history
  cases hdb : admitted with
  | error e => rw [hdb] at hok; cases hok
  | ok db => rfl

theorem history_upToDate : UpToDate Clinical.deps.uuid to_uuid desk history where
  wf := by
    obtain ⟨db, hupsert, hreveal⟩ := bind_ok.mp admitted_ok
    exact Except.ok.inj hreveal ▸ (Wf.upsert hupsert .empty).reveal
  legible := by decide +kernel
  canonical := by decide +kernel
  edges := by
    have hcolumns : ∀ r ∈ visible_rows desk history.db,
        (history.graph.edges.filter fun e => e.assertion_id == r.id) = [Edge.of allergy.1] ∧
        (Edge.of allergy.1).assertion_id = r.id ∧ (Edge.of allergy.1).subject_id = r.subject_id ∧
        (Edge.of allergy.1).predicate = r.predicate ∧
        ObjectValue.ofJson r.object_json = some (Edge.of allergy.1).object ∧
        (Edge.of allergy.1).confidence.1 = r.confidence ∧ (Edge.of allergy.1).valid_from = r.valid_from ∧
        (Edge.of allergy.1).trace_id = r.trace_id ∧ (Edge.of allergy.1).valid_to = r.valid_to := by
      decide +kernel
    intro r hr
    obtain ⟨hone, hid, hsubject, hpredicate, hobject, hconfidence, hfrom, htrace, hto⟩ := hcolumns r hr
    exact ⟨_, hone, ⟨hid, hsubject, hpredicate, hobject, hconfidence, hfrom, htrace, fun _ => rfl⟩, hto⟩

end SameEntity

open SameEntity Neo4j Confinement

/-- Asked for under its own id, with no instant, the patient is one to a full scan of the index. -/
theorem patient_alike : HalvesAgree SameEntity.python to_uuid Clinical.deps (fun _ => [1])
    (.hnsw (partial_index history.db)) desk (asks Neo4j.patient) history := by
  have hroom : (partial_index history.db).length = min EF_SEARCH (partial_index history.db).length := by
    decide +kernel
  refine (halves_agree_iff SameEntity.python to_uuid Clinical.deps (fun _ => [1]) Clinical.deps.uuid desk
    (asks Neo4j.patient) history Neo4j.patient none (by decide +kernel) (by decide +kernel)
    history_upToDate (by decide +kernel)).2.mpr ⟨?_, fun _ _ => by decide +kernel⟩ _ (by decide +kernel) hroom
  have hrow : ∀ r ∈ visible_rows desk history.db, r.valid_to = none ∧ r.subject_id = Neo4j.patient ∧
      r.retracted_at = none ∧ r.embedding ≠ none := by decide +kernel
  refine ⟨by decide +kernel, fun r hr _ _ => ?_, fun r hr _ u hu => ?_, by decide +kernel⟩
  · obtain ⟨-, hsubject, hunretracted, hembedded⟩ := hrow r hr
    have hstored : r ∈ (Plan.exact.view history.db).assertions := visible_rows_stored hr
    simp [hsubject, hunretracted, hembedded, Plan.as_of, hstored]
  · rw [(hrow r hr).1] at hu
    cases hu

/-- As of the day before it was noted, the allergy is among the neighbours and not among the
    assertions. -/
theorem as_of_ignored : ¬ ∀ (dumps : Json → String) (py : Readers) (cast : UuidCast) (deps : Deps)
    (embed : String → List ℚ) (uuid : Uuid5) (plan : Plan) (context : ToolContext) (arguments : JsonObj)
    (s : Stores dumps) (entity_id : EntityId) (as_of : Option (Time × String)), plan.Conforms s.db →
    require_entity_id py arguments = .ok entity_id → parse_as_of py arguments = .ok as_of →
    UpToDate uuid cast context s →
    (entity_rows cast context entity_id (as_of.map Prod.fst) s.db).length < ASSERTION_LIMIT →
    HalvesAgree py cast deps embed plan context arguments s := by
  intro h
  have hanswer : (run_get_entity SameEntity.python to_uuid Clinical.deps (fun _ => [1]) .exact desk before_noted
      history).toOption.any (fun r => r.neighbor_ids == ["a1"] && r.assertion_ids == []) = true := by
    decide +kernel
  obtain ⟨response, hrun, hagrees⟩ := h text SameEntity.python to_uuid Clinical.deps (fun _ => [1])
    Clinical.deps.uuid .exact desk before_noted history Neo4j.patient
    (some (-86400, "1969-12-31T00:00:00+00:00")) trivial (by decide +kernel) (by decide +kernel)
    history_upToDate (by decide +kernel)
  simp only [hrun, Except.toOption, Option.any_some, Bool.and_eq_true, beq_iff_eq] at hanswer
  have hin := hagrees "a1"
  rw [hanswer.1, hanswer.2] at hin
  exact absurd (hin.mp List.mem_cons_self) List.not_mem_nil

/-- Asked for in capitals, the allergy is among the assertions and not among the neighbours. -/
theorem spelling_kept : ¬ HalvesAgree SameEntity.python to_uuid Clinical.deps (fun _ => [1]) .exact desk
    (asks "7C9E6679-7425-40DE-944B-E07FC1F90AE7") history := by
  have hanswer : (run_get_entity SameEntity.python to_uuid Clinical.deps (fun _ => [1]) .exact desk
      (asks "7C9E6679-7425-40DE-944B-E07FC1F90AE7") history).toOption.any
        (fun r => r.neighbor_ids == [] && r.assertion_ids == ["a1"]) = true := by decide +kernel
  rintro ⟨response, hrun, hagrees⟩
  simp only [hrun, Except.toOption, Option.any_some, Bool.and_eq_true, beq_iff_eq] at hanswer
  have hin := hagrees "a1"
  rw [hanswer.1, hanswer.2] at hin
  exact absurd (hin.mpr List.mem_cons_self) List.not_mem_nil

end GuardMem
