import GuardMem.Memory.Graph
import GuardMem.Memory.Plans
import GuardMem.Clinical

/-! Incumbent retrieval: `retrieve_incumbents`, under the plan Postgres answers its read with.

    Whether a key is occupied is asked as a top-k read. `assertion_hnsw` may answer it: at most
    `hnsw.ef_search` rows of the whole partial index, every tenant's and every key's, and the read's
    other clauses only afterwards. CORRECT exactly where that scan came to a row of the key
    (`retrieval_complete_iff`): forty live rows of others that lie nearer hide the incumbent, and the
    report is the one for a novel fact (`crowded_out`). -/

namespace GuardMem

open Lib.Transition

/-! ### `retrieve_incumbents` -/

/-- One hop. -/
def HOPS : ℕ := 1

/-- What is already believed about a candidate's subject. -/
structure IncumbentSet where
  candidate_id : CandidateId
  nearest : List ScoredAssertion
  neighbours : List Edge

/-- Keep only the edges `nearest` does not already account for. -/
def IncumbentSet.widening (edges : List Edge) (nearest : List ScoredAssertion) : List Edge :=
  let seen := nearest.map fun hit => hit.assertion.assertion_id
  edges.filter fun edge => !seen.contains edge.assertion_id

variable {G : Type} (cast : UuidCast) (deps : Deps) (graph : GraphStore G) (tenant : TenantId)

/-- Fetch what is already believed about this candidate's subject. -/
def retrieve_incumbents (plan : Plan) (candidate : MemoryCandidate) (subject_id : EntityId) (k : ℕ)
    (db : Db) (g : G) : Except Exc IncumbentSet := do
  let embedding := deps.embedding candidate.predicate candidate.object
  let nearest ← PgVectorStore.search cast deps tenant candidate.namespace embedding k
    [("subject_id", subject_id), ("predicate", candidate.predicate)] none (plan.view db)
  let edges := graph.neighbors subject_id HOPS g
  .ok ⟨candidate.candidate_id, nearest, IncumbentSet.widening edges nearest⟩

/-- A visible, live row for the candidate's namespace, subject and predicate. -/
def Incumbent (candidate : MemoryCandidate) (subject_id : EntityId) (r : AssertionRow) : Prop :=
  r.tenant_id = tenant ∧ r.namespace = candidate.namespace ∧ cast subject_id = some r.subject_id ∧
    r.predicate = candidate.predicate ∧ r.served = true

instance (candidate : MemoryCandidate) (subject_id : EntityId) (r : AssertionRow) :
    Decidable (Incumbent cast tenant candidate subject_id r) := inferInstanceAs (Decidable (_ ∧ _))

def Occupied (candidate : MemoryCandidate) (subject_id : EntityId) (db : Db) : Prop :=
  ∃ r ∈ db.assertions, Incumbent cast tenant candidate subject_id r

/-- Retrieval for an occupied key returns an incumbent, and no answer of the judge makes the report the
    one for a key that holds nothing. -/
def RetrievalComplete (plan : Plan) (candidate : MemoryCandidate) (subject_id : EntityId)
    (spec : PredicateSpec) (db : Db) (g : G) : Prop :=
  Occupied cast tenant candidate subject_id db →
    ∃ found, retrieve_incumbents cast deps graph tenant plan candidate subject_id INCUMBENT_K db g =
        .ok found ∧
      (∃ hit ∈ found.nearest, ∃ r ∈ db.assertions, Incumbent cast tenant candidate subject_id r ∧
        r.id = hit.assertion.assertion_id) ∧
      ∀ judgements report, detect candidate found.nearest spec judgements = .ok report →
        report ≠ no_conflict

/-- The plan gets to see a row of the key. -/
def Plan.Reaches (candidate : MemoryCandidate) (subject_id : EntityId) : Plan → Prop
  | .exact => True
  | .hnsw scan => ∃ r ∈ scan, Incumbent cast tenant candidate subject_id r

/-! ### Store states -/

/-- A state of the store: its constraints hold, and its rows can be read back. -/
structure StoreState (uuid : Uuid5) extends Db where
  wf : Wf uuid toDb
  legible : ∀ r ∈ assertions, r.embedding.isSome = true ∧ (ObjectValue.ofJson r.object_json).isSome = true

variable {cast deps graph tenant} {env : Env G} {w w' : World G} {l : Label} {plan : Plan}
  {c : MemoryCandidate} {subject_id : EntityId} {db : Db} {r : AssertionRow}

/-- What a row is read back from is set when it is inserted, and stays. -/
theorem step_legible (h : step env w l = some w') (hi : Wf env.deps.uuid w.db)
    (hr : ∀ r ∈ w.db.assertions,
      r.embedding.isSome = true ∧ (ObjectValue.ofJson r.object_json).isSome = true) :
    ∀ r ∈ w'.db.assertions,
      r.embedding.isSome = true ∧ (ObjectValue.ofJson r.object_json).isSome = true := by
  intro r hmem
  cases step_effect hi h with
  | quiet hdb => exact hr r (hdb ▸ hmem)
  | refused _ _ _ => exact hr r hmem
  | landed _ _ hl =>
      rcases (mem_landed hi hl).mp hmem with ⟨hq, -⟩ | - | @⟨q, hq, -, -, -⟩
      · exact hr r hq
      · simp [fresh_row, assertion_params, fresh]
      · exact hr q hq
  | upserted hu =>
      rcases (upsert_rows hu hi).2.1 r hmem with hq | ⟨a, -, rfl⟩
      · exact hr r hq
      · simp [assertion_params]
  | claimed _ => exact hr r hmem
  | wrote _ _ _ hdb => exact hr r (hdb ▸ hmem)
  | completed _ _ =>
      obtain ⟨q, hq, rfl⟩ := List.mem_map.mp hmem
      split <;> exact hr q hq

/-- CORRECT: every run leaves the database in a state of the store. -/
theorem run_store {ls : List Label} (h : run (step env) env.init ls = some w) :
    ∃ s : StoreState env.deps.uuid, s.toDb = w.db := by
  obtain ⟨hi, hr⟩ := inv_run (I := fun w => Wf env.deps.uuid w.db ∧ ∀ r ∈ w.db.assertions,
      r.embedding.isSome = true ∧ (ObjectValue.ofJson r.object_json).isSome = true)
    (fun _ _ _ hstep hw => ⟨step_wf hstep hw.1, step_legible hstep hw.1 hw.2⟩) h
    ⟨.empty, fun _ hr => absurd hr List.not_mem_nil⟩
  exact ⟨⟨w.db, hi, hr⟩, rfl⟩

/-! ### What retrieval returns -/

/-- What the read asks of a row of the store is what makes it an incumbent. -/
theorem clauses_hold_iff (s : StoreState deps.uuid) (hr : r ∈ s.assertions) :
    (r.tenant_id = tenant ∧ ∀ clause ∈ ALWAYS c.namespace ++
        [.live, .subject_id subject_id, .predicate c.predicate], clause.holds cast r = true) ↔
      Incumbent cast tenant c subject_id r := by
  have hembedded := (s.legible r hr).1
  simp only [ALWAYS, List.cons_append, List.nil_append, List.forall_mem_cons, List.not_mem_nil,
    false_implies, implies_true, and_true, Clause.holds, hembedded, beq_iff_eq, Incumbent,
    AssertionRow.served, AssertionRow.live, Bool.and_eq_true]
  tauto

variable (graph) in
/-- The ids retrieval returns are those of the nearest incumbents the plan gets to see. -/
theorem retrieve_ids (s : StoreState deps.uuid) (hplan : plan.Conforms s.toDb)
    (hcast : (cast subject_id).isSome = true) (k : ℕ) (g : G) :
    ∃ found, retrieve_incumbents cast deps graph tenant plan c subject_id k s.toDb g = .ok found ∧
      found.nearest.map (fun hit => hit.assertion.assertion_id) =
        (nearest_rows deps (deps.embedding c.predicate c.object) k
          ((plan.view s.toDb).assertions.filter fun r => Incumbent cast tenant c subject_id r)).map
            AssertionRow.id := by
  have hrows : selected cast tenant (ALWAYS c.namespace ++
      [.live, .subject_id subject_id, .predicate c.predicate]) (plan.view s.toDb) =
      (plan.view s.toDb).assertions.filter fun r => Incumbent cast tenant c subject_id r := by
    refine List.filter_congr fun r hr => ?_
    rw [Bool.eq_iff_iff, decide_eq_true_iff, ← clauses_hold_iff s (Plan.view_subset hplan hr),
      Bool.and_eq_true, beq_iff_eq, List.all_eq_true]
  have hread : ∀ r ∈ selected cast tenant (ALWAYS c.namespace ++
      [.live, .subject_id subject_id, .predicate c.predicate]) (plan.view s.toDb),
      ∃ a, hydrate (plan.view s.toDb) r = .ok a := by
    intro r hr
    have hmem := Plan.view_subset hplan (mem_selected.mp hr).1
    rw [hydrate_view]
    exact hydrate_legible s.wf hmem (s.legible r hmem).2
  obtain ⟨hits, hhits, hids⟩ := search_ids hread (bound_now hcast)
  exact ⟨_, bind_ok.mpr ⟨hits, hhits, rfl⟩, hrows ▸ hids⟩

/-- What the pipeline is scored with elsewhere is retrieval under an exact plan. -/
theorem retrieve_exact (hcast : cast subject_id = some subject_id) (k : ℕ) (g : G) :
    retrieve_incumbents cast deps graph tenant .exact c subject_id k db g =
      (search deps tenant c.namespace subject_id c.predicate (deps.embedding c.predicate c.object) k db).map
        fun nearest => ⟨c.candidate_id, nearest,
          IncumbentSet.widening (graph.neighbors subject_id HOPS g) nearest⟩ := by
  rw [retrieve_incumbents, Plan.view, search_now hcast]
  cases search deps tenant c.namespace subject_id c.predicate (deps.embedding c.predicate c.object) k db <;>
    rfl

/-- Detection names an incumbent whenever it is given one. -/
theorem detect_named {incumbents : List ScoredAssertion} {spec : PredicateSpec} {js : List Judgement}
    {report : ConflictReport} (hsome : incumbents ≠ [])
    (h : detect c incumbents spec js = .ok report) : report.incumbent_assertion_id ≠ none := by
  unfold detect at h
  rw [if_neg hsome] at h
  split at h
  · obtain rfl := Except.ok.inj h
    exact Option.some_ne_none _
  · obtain rfl := Except.ok.inj h
    exact Option.some_ne_none _
  · unfold adjudicate at h
    split at h
    · cases h
    · dsimp only at h
      split at h
      · cases h
      · obtain rfl := Except.ok.inj h
        exact Option.some_ne_none _

/-- Retrieval is complete under a plan if and only if the plan gets to see a row of the key. -/
theorem retrieval_complete_of_plan (s : StoreState deps.uuid) (hplan : plan.Conforms s.toDb)
    (spec : PredicateSpec) (g : G) :
    RetrievalComplete cast deps graph tenant plan c subject_id spec s.toDb g ↔
      (Occupied cast tenant c subject_id s.toDb → plan.Reaches cast tenant c subject_id) := by
  refine imp_congr_right fun hocc => ?_
  obtain ⟨held, hheld, hkey⟩ := hocc
  have hcast : (cast subject_id).isSome = true := by simp [hkey.2.2.1]
  have hreach : plan.Reaches cast tenant c subject_id ↔
      ∃ r ∈ (plan.view s.toDb).assertions, Incumbent cast tenant c subject_id r := by
    cases plan with
    | exact => exact iff_of_true trivial ⟨held, hheld, hkey⟩
    | hnsw scan => exact Iff.rfl
  obtain ⟨found, hfound, hids⟩ := retrieve_ids graph s hplan hcast INCUMBENT_K g
  rw [hreach]
  constructor
  · rintro ⟨found', hfound', ⟨hit, hhit, -⟩, -⟩
    obtain rfl := Except.ok.inj (hfound.symm.trans hfound')
    have hmem : hit.assertion.assertion_id ∈ found.nearest.map fun hit => hit.assertion.assertion_id :=
      List.mem_map_of_mem hhit
    rw [hids] at hmem
    obtain ⟨r, hr, -⟩ := List.mem_map.mp hmem
    obtain ⟨hrow, hinc⟩ := List.mem_filter.mp (nearest_rows_mem hr)
    exact ⟨r, hrow, by simpa using hinc⟩
  · rintro ⟨r, hr, hinc⟩
    have hadmitted : r ∈ (plan.view s.toDb).assertions.filter fun r =>
        Incumbent cast tenant c subject_id r := List.mem_filter.mpr ⟨hr, by simpa using hinc⟩
    obtain ⟨q, hq⟩ : ∃ q, q ∈ nearest_rows deps (deps.embedding c.predicate c.object) INCUMBENT_K
        ((plan.view s.toDb).assertions.filter fun r => Incumbent cast tenant c subject_id r) :=
      nearest_rows_some (by decide) hadmitted
    obtain ⟨hrow, hqinc⟩ := List.mem_filter.mp (nearest_rows_mem hq)
    obtain ⟨hit, hhit, hid⟩ := List.mem_map.mp (hids.symm ▸ List.mem_map_of_mem hq)
    refine ⟨found, hfound, ⟨hit, hhit, q, Plan.view_subset hplan hrow, by simpa using hqinc, hid.symm⟩, ?_⟩
    rintro js report hdetect rfl
    exact detect_named (List.ne_nil_of_mem hhit) hdetect rfl

/-- Every scan that finds as many rows as it may comes to a row of the key, if and only if fewer than
    `ef_search` rows of the index are others'. -/
theorem full_scans_reach_iff (s : StoreState deps.uuid) (hocc : Occupied cast tenant c subject_id s.toDb) :
    (∀ plan : Plan, plan.Conforms s.toDb → plan.Full s.toDb → plan.Reaches cast tenant c subject_id) ↔
      ((partial_index s.toDb).filter fun r => !Incumbent cast tenant c subject_id r).length <
        EF_SEARCH := by
  have hsome : ∃ r ∈ partial_index s.toDb,
      Decidable.decide (Incumbent cast tenant c subject_id r) = true := by
    obtain ⟨r, hr, hinc⟩ := hocc
    refine ⟨r, List.mem_filter.mpr ⟨hr, ?_⟩, by simpa using hinc⟩
    obtain ⟨hv, hl⟩ := served_iff.mp hinc.2.2.2.2
    simp only [AssertionRow.live, Bool.and_eq_true] at hl
    simp [hv, hl.1, (s.legible r hr).1]
  rw [← scans_hit_iff (partial_index_nodup s.wf.ids_nodup) hsome]
  constructor
  · intro h scan hscan hsub hlen
    obtain ⟨r, hr, hinc⟩ := h (.hnsw scan) ⟨hscan, hsub, by omega⟩ hlen
    exact ⟨r, hr, by simpa using hinc⟩
  · intro h plan hplan hfull
    cases plan with
    | exact => trivial
    | hnsw scan =>
        obtain ⟨r, hr, hinc⟩ := h scan hplan.1 hplan.2.1 hfull
        exact ⟨r, hr, by simpa using hinc⟩

/-- What the table answers for a restated value is of kind `NONE` only when the judge is in doubt. -/
theorem classify_restates_none {cosine : ℚ} {j : Judgement}
    (h : (classify cosine j true).kind = .NONE) : (classify cosine j true).resolution_hint = .escalate := by
  unfold classify at h ⊢
  split
  · rfl
  · split
    · rfl
    · simp_all [Resolution.DUPLICATE]

/-- On a `ONE` predicate a report of kind `NONE` about incumbents says that each of them holds the
    candidate's value already, and it escalates unless the candidate is dated. -/
theorem detect_none {incumbents : List ScoredAssertion} {spec : PredicateSpec} {js : List Judgement}
    {report : ConflictReport} (hone : spec.cardinality = .ONE) (hsome : incumbents ≠ [])
    (h : detect c incumbents spec js = .ok report) (hkind : report.kind = .NONE) :
    (∀ hit ∈ incumbents, hit.assertion.object.pyEq c.object = true) ∧
      (report.resolution_hint = .escalate ∨ c.valid_from ≠ none ∨ c.valid_to ≠ none) := by
  cases hl : live_incumbent incumbents c.object with
  | some hit =>
      simp only [detect, hone, hl, if_neg hsome, Except.ok.injEq] at h
      subst h
      cases hkind
  | none =>
      have hall : ∀ hit ∈ incumbents, hit.assertion.object.pyEq c.object = true := by
        intro hit hhit
        simpa using List.find?_eq_none.mp hl hit hhit
      refine ⟨hall, ?_⟩
      by_cases hdated : c.valid_from ≠ none ∨ c.valid_to ≠ none
      · exact Or.inr hdated
      · left
        obtain ⟨hfrom, hto⟩ : c.valid_from = none ∧ c.valid_to = none := by simpa using hdated
        simp only [detect, hone, hl, if_neg hsome, adjudicate] at h
        split at h
        · cases h
        · split at h
          · cases h
          · next res hit j hms =>
              obtain ⟨⟨hit', j'⟩, hzip, hpair⟩ := List.mem_map.mp (most_severe_mem hms)
              obtain ⟨hres, rfl, rfl⟩ : classify hit'.cosine.1 j' (restates c hit'.assertion) = res ∧
                  hit' = hit ∧ j' = j := by simpa using hpair
              obtain rfl := Except.ok.inj h
              have hrestates : restates c hit'.assertion = true := by
                simp [restates, overlaps, hall _ (List.of_mem_zip hzip).1, hfrom, hto]
              rw [hrestates] at hres
              rw [report, ← hres] at hkind ⊢
              exact classify_restates_none hkind

/-- CORRECT: retrieval is complete for a candidate exactly when the plan gets to see a row of an occupied
    key; whatever the index scans, exactly when fewer than `ef_search` of its rows are others'. A report of
    kind `NONE` on a `ONE` predicate is the one for a novel fact, or restates what is held. -/
theorem retrieval_complete_iff (cast : UuidCast) (deps : Deps) (graph : GraphStore G) (tenant : TenantId)
    (s : StoreState deps.uuid) (c : MemoryCandidate) (subject_id : EntityId) (spec : PredicateSpec)
    (g : G) :
    (∀ plan : Plan, plan.Conforms s.toDb →
      (RetrievalComplete cast deps graph tenant plan c subject_id spec s.toDb g ↔
        (Occupied cast tenant c subject_id s.toDb → plan.Reaches cast tenant c subject_id))) ∧
    ((∀ plan : Plan, plan.Conforms s.toDb → plan.Full s.toDb →
        RetrievalComplete cast deps graph tenant plan c subject_id spec s.toDb g) ↔
      (Occupied cast tenant c subject_id s.toDb →
        ((partial_index s.toDb).filter fun r => !Incumbent cast tenant c subject_id r).length <
          EF_SEARCH)) ∧
    ∀ (plan : Plan) k found js report,
      retrieve_incumbents cast deps graph tenant plan c subject_id k s.toDb g = .ok found →
      detect c found.nearest spec js = .ok report → spec.cardinality = .ONE → report.kind = .NONE →
      report = no_conflict ∨ ((∀ hit ∈ found.nearest, hit.assertion.object.pyEq c.object = true) ∧
        (report.resolution_hint = .escalate ∨ c.valid_from ≠ none ∨ c.valid_to ≠ none)) := by
  refine ⟨fun plan hplan => retrieval_complete_of_plan s hplan spec g, ?_, ?_⟩
  · constructor
    · intro h hocc
      refine (full_scans_reach_iff s hocc).mp fun plan hplan hfull => ?_
      exact (retrieval_complete_of_plan s hplan spec g).mp (h plan hplan hfull) hocc
    · intro h plan hplan hfull
      refine (retrieval_complete_of_plan s hplan spec g).mpr fun hocc => ?_
      exact (full_scans_reach_iff s hocc).mpr (h hocc) plan hplan hfull
  · intro plan k found js report _ hdetect hone hkind
    by_cases hsome : found.nearest = []
    · rw [hsome, detect, if_pos rfl] at hdetect
      exact Or.inl (Except.ok.inj hdetect).symm
    · exact Or.inr (detect_none hone hsome hdetect hkind)

/-- The scan with perfect recall: the `ef_search` nearest rows of the index. -/
def nearest_scan (deps : Deps) (vector : List ℚ) (db : Db) : Plan :=
  .hnsw (nearest_rows deps vector EF_SEARCH (partial_index db))

theorem nearest_scan_conforms {uuid : Uuid5} (vector : List ℚ) (h : Wf uuid db) :
    (nearest_scan deps vector db).Conforms db := by
  refine ⟨?_, fun r hr => nearest_rows_mem hr, List.length_take_le _ _⟩
  exact ((List.perm_insertionSort _ _).nodup_iff.mpr (partial_index_nodup h.ids_nodup)).sublist
    (List.take_sublist _ _)

section Clinical

open GuardMem.Clinical

/-- An embedder that tells French from any other language. -/
def by_language : Deps :=
  { Clinical.deps with embedding := fun _ object => if object = .str "French" then [0] else [1] }

def ward_env : Env Clinical.Graph := { Clinical.env with deps := by_language }

/-- The forty patients of another tenant, each with German on record. -/
def ward : List StoredAssertion :=
  (List.range 40).map fun n =>
    { assertion_id := toString n, tenant_id := "ward", «namespace» := "patient:2", subject_id := "p"
      predicate := "preferred_language", object := .str "German", confidence := percent 50
      risk := percent 32, valid_from := 10, recorded_at := 20, trace_id := "w"
      provenance := [(language "w" "c_1" "German" 10).provenance]
      sourced := List.cons_ne_nil _ _, corroborated := Nat.one_pos, interval_coherent := by simp }

/-- A patient's French is revealed, and so is the ward. -/
def crowding : List Label :=
  [proposal "t" [language "t" "c_1" "French" 10], scored 0 0, applied 0 20] ++
    dispatched 0 (row_id "t" "c_1") 30 ++
  [.upsert "ward" 35 ward, .claim [] (ward.map fun a => outbox_id uuid a.assertion_id)] ++
    ward.flatMap fun _ => [.load 1, .write 1 .answers, .complete 1 40]

/-- The patient now speaks German, like the ward. -/
def now_german : MemoryCandidate := language "u" "c_1" "German" 50

def preferred_language : PredicateSpec := { subject := "Patient", cardinality := .ONE, impact := .LOW }

def patient_id : EntityId := derive_entity_id by_language "clinic" "patient:1"

/-- The key is occupied, retrieval returns nothing, and the report is of a novel fact. -/
def Overlooked (plan : Plan) (db : Db) (g : Clinical.Graph) : Prop :=
  Occupied some "clinic" now_german patient_id db ∧
    ∃ found ∈ (retrieve_incumbents some by_language ward_env.store "clinic" plan now_german patient_id
        INCUMBENT_K db g).toOption,
      found.nearest = [] ∧ detect now_german found.nearest preferred_language [] = .ok no_conflict

instance (plan : Plan) (db : Db) (g : Clinical.Graph) : Decidable (Overlooked plan db g) :=
  inferInstanceAs (Decidable ((∃ r ∈ db.assertions, _) ∧ ∃ found ∈ Except.toOption _, _ ∧ _))

/-- In a state the system reaches, the forty nearest rows of the index are all the ward's. -/
theorem crowded_out : ∃ w, run (step ward_env) ward_env.init crowding = some w ∧
    (nearest_scan by_language [1] w.db).Conforms w.db ∧
    Overlooked (nearest_scan by_language [1] w.db) w.db w.graph ∧
    ¬ RetrievalComplete some by_language ward_env.store "clinic" (nearest_scan by_language [1] w.db)
      now_german patient_id preferred_language w.db w.graph := by
  have hlast : (run (step ward_env) ward_env.init crowding).any (fun w =>
      Overlooked (nearest_scan by_language [1] w.db) w.db w.graph) = true := by
    decide +kernel
  obtain ⟨w, hrun, hmissed⟩ := (Option.any_eq_true _ _).mp hlast
  have hmissed := of_decide_eq_true hmissed
  refine ⟨w, hrun, nearest_scan_conforms _ (run_wf hrun), hmissed, fun hcomplete => ?_⟩
  obtain ⟨hocc, found, hfound, hnil, -⟩ := hmissed
  obtain ⟨found', hok, ⟨hit, hhit, -⟩, -⟩ := hcomplete hocc
  rw [hok] at hfound
  obtain rfl := Option.some.inj hfound
  rw [hnil] at hhit
  cases hhit

end Clinical

end GuardMem
