import GuardMem.Memory.Wellformed
import GuardMem.Pipeline.PerCandidate

/-! Reads of the assertion table: `queries.predicates` and `PgVectorStore.search` with any filters,
    now or as of an instant.

    CORRECT: over a well-formed database a read answers with the rows its clauses admit, and with all of
    them when `k` leaves room (`search_rows`); the pipeline's own read is the one that binds a subject
    and a predicate (`search_now`). -/

namespace GuardMem

/-- One condition of a read, with the value it binds. -/
inductive Clause where
  | in_namespace (ns : Namespace)
  | visible
  | unretracted
  | embedded
  | live
  | valid_at (t : Time)
  | retired
  | subject_id (text : String)
  | predicate (name : String)
  deriving DecidableEq

/-- Applied by every read. -/
def ALWAYS (ns : Namespace) : List Clause := [.in_namespace ns, .visible, .unretracted, .embedded]

/-- The caller's vocabulary. -/
def filter_clause : String × String → Except Exc Clause
  | ("subject_id", value) => .ok (.subject_id value)
  | ("predicate", value) => .ok (.predicate value)
  | (key, _) => .error (.KeyError (quoted key ++ " is not a searchable column; allowed: " ++
      "['predicate', 'subject_id']. Widen _FILTER_COLUMNS together with the index that supports it, " ++
      "never by interpolating the key."))

/-- Live rows, or with `as_of` the rows whose world time contains it. -/
def temporal : Option Time → Clause
  | none => .live
  | some t => .valid_at t

/-- The WHERE clauses shared by every read. -/
def predicates (ns : Namespace) (filters : List (String × String)) (as_of : Option Time) :
    Except Exc (List Clause) := do
  .ok (ALWAYS ns ++ temporal as_of :: (← collect filter_clause filters))

/-- What a `::uuid` cast reads a text as; `none` where it refuses. -/
abbrev UuidCast := String → Option EntityId

variable (cast : UuidCast) (deps : Deps)

/-- Half-open `[valid_from, valid_to)`. -/
def AssertionRow.valid_at (r : AssertionRow) (t : Time) : Bool :=
  r.valid_from ≤ t && r.valid_to.all fun u => t < u

def Clause.holds (r : AssertionRow) : Clause → Bool
  | .in_namespace ns => r.namespace == ns
  | .visible => r.visible
  | .unretracted => r.retracted_at.isNone
  | .embedded => r.embedding.isSome
  | .live => r.valid_to.isNone
  | .valid_at t => r.valid_at t
  | .retired => r.valid_to.isSome
  | .subject_id text => cast text == some r.subject_id
  | .predicate name => r.predicate == name

/-- Binding a parameter: a text that is no uuid does not reach a `uuid` column. -/
def Clause.bind : Clause → Except Exc Clause
  | .subject_id text => if (cast text).isSome then .ok (.subject_id text) else .error (.DataError text)
  | clause => .ok clause

/-- The clauses of one read, every parameter bound. -/
def bound_clauses (ns : Namespace) (filters : List (String × String)) (as_of : Option Time) :
    Except Exc (List Clause) := do
  collect (Clause.bind cast) (← predicates ns filters as_of)

/-- The rows a read ranks: the tenant's, by row-level security, that meet every clause. -/
def selected (tenant : TenantId) (clauses : List Clause) (db : Db) : List AssertionRow :=
  db.assertions.filter fun r => r.tenant_id == tenant && clauses.all (Clause.holds cast r)

/-- `ORDER BY distance LIMIT k`. -/
def nearest_rows (vector : List ℚ) (k : ℕ) (rows : List AssertionRow) : List AssertionRow :=
  (rows.insertionSort fun a b =>
    (row_distance deps vector a).1 ≤ (row_distance deps vector b).1).take k

/-- One row of the answer: the assertion with its citations, and its cosine. -/
def scored_row (vector : List ℚ) (db : Db) (row : AssertionRow) : Except Exc ScoredAssertion := do
  .ok ⟨← hydrate db row, similarity (row_distance deps vector row)⟩

/-- Return the `k` nearest assertions: live now, or valid at `as_of`. -/
def PgVectorStore.search (tenant : TenantId) (ns : Namespace) (vector : List ℚ) (k : ℕ)
    (filters : List (String × String)) (as_of : Option Time) (db : Db) :
    Except Exc (List ScoredAssertion) := do
  let clauses ← bound_clauses cast ns filters as_of
  collect (scored_row deps vector db) (nearest_rows deps vector k (selected cast tenant clauses db))

/-- The clauses of the retired read: those of a read of now, with the live clause replaced by its
    complement. -/
def retired_clauses (clauses : List Clause) : Except Exc (List Clause) :=
  if .live ∈ clauses then .ok (clauses.map fun clause => if clause = .live then .retired else clause)
  else .error (.ValueError ("expected 'valid_to IS NULL' among the clauses; retired_statement replaces " ++
    "it with its complement and needs predicates(..., as_of=None)"))

/-- `ORDER BY valid_to DESC LIMIT limit`: the rows read have one. -/
def latest_rows (limit : ℕ) (rows : List AssertionRow) : List AssertionRow :=
  (rows.insertionSort fun a b => b.valid_to.getD 0 ≤ a.valid_to.getD 0).take limit

/-- Return what this namespace has stopped believing, newest first. -/
def PgVectorStore.retired (tenant : TenantId) (ns : Namespace) (filters : List (String × String))
    (limit : ℕ) (db : Db) : Except Exc (List StoredAssertion) := do
  let clauses ← retired_clauses (← predicates ns filters none)
  let bound ← collect (Clause.bind cast) clauses
  collect (hydrate db) (latest_rows limit (selected cast tenant bound db))

variable {cast deps} {uuid : Uuid5} {tenant : TenantId} {ns : Namespace} {vector : List ℚ} {k : ℕ}
  {filters : List (String × String)} {as_of : Option Time} {db : Db} {r : AssertionRow}

theorem mem_selected {clauses : List Clause} : r ∈ selected cast tenant clauses db ↔
    r ∈ db.assertions ∧ r.tenant_id = tenant ∧ ∀ c ∈ clauses, c.holds cast r = true := by
  simp [selected]

theorem nearest_rows_mem {rows : List AssertionRow} (h : r ∈ nearest_rows deps vector k rows) :
    r ∈ rows := (List.mem_insertionSort _).mp (List.mem_of_mem_take h)

theorem nearest_rows_all {rows : List AssertionRow} (hk : rows.length ≤ k) :
    r ∈ nearest_rows deps vector k rows ↔ r ∈ rows := by
  rw [nearest_rows, List.take_of_length_le (by rwa [List.length_insertionSort]),
    List.mem_insertionSort]

/-- A read with room for one row finds one when there is one. -/
theorem nearest_rows_some {rows : List AssertionRow} (hk : 0 < k) (hr : r ∈ rows) :
    ∃ q, q ∈ nearest_rows deps vector k rows := by
  refine List.exists_mem_of_ne_nil _ fun hnil => ?_
  rcases List.take_eq_nil_iff.mp hnil with hzero | hempty
  · omega
  · have hmem := (List.mem_insertionSort fun a b =>
      (row_distance deps vector a).1 ≤ (row_distance deps vector b).1).mpr hr
    rw [hempty] at hmem
    cases hmem

/-! ### What a read answers -/

theorem bind_clause_ok {c c' : Clause} (h : c.bind cast = .ok c') : c' = c := by
  cases c with
  | subject_id text =>
      simp only [Clause.bind] at h
      split at h
      · exact (Except.ok.inj h).symm
      · cases h
  | _ => exact (Except.ok.inj h).symm

/-- A read asks what every read asks, of its instant, and what its filters say. -/
theorem bound_clauses_ok {clauses : List Clause} (h : bound_clauses cast ns filters as_of = .ok clauses) :
    ∃ fs, collect filter_clause filters = .ok fs ∧ clauses = ALWAYS ns ++ temporal as_of :: fs := by
  simp only [bound_clauses, predicates, bind_ok, Except.ok.injEq] at h
  obtain ⟨_, ⟨fs, hfs, rfl⟩, hbind⟩ := h
  refine ⟨fs, hfs, ?_⟩
  have hsame := (collect_ok.mp hbind).imp fun _ _ hc => (bind_clause_ok hc).symm
  exact (List.forall₂_eq_eq_eq ▸ hsame).symm

theorem collect_total {α β : Type} {f : α → Except Exc β} : ∀ {xs : List α},
    (∀ x ∈ xs, ∃ y, f x = .ok y) → ∃ ys, collect f xs = .ok ys
  | [], _ => ⟨[], rfl⟩
  | x :: xs, h => by
      obtain ⟨y, hy⟩ := h x List.mem_cons_self
      obtain ⟨ys, hys⟩ := collect_total fun z hz => h z (List.mem_cons_of_mem _ hz)
      exact ⟨y :: ys, by simp [collect, hy, hys]⟩

/-- A citation reads back as it was written. -/
theorem provenance_from_row_params (aid : AssertionId) (c : Provenance) :
    provenance_from_row (citation_params uuid aid c) = .ok c := by
  simp [provenance_from_row, citation_params, c.verbatim_short, c.alignment.2, c.span_real]

/-- A row of a well-formed database can be read back when its value can. -/
theorem hydrate_legible (hwf : Wf uuid db) (hr : r ∈ db.assertions)
    (hvalue : (ObjectValue.ofJson r.object_json).isSome = true) :
    ∃ a, hydrate db r = .ok a := by
  have hcitations : ∀ p ∈ SELECT_PROVENANCE r.id db, ∃ c, provenance_from_row p = .ok c := by
    intro p hp
    rw [SELECT_PROVENANCE, List.mem_insertionSort, List.mem_filter] at hp
    obtain ⟨-, c, hc⟩ := hwf.cited p hp.1
    exact ⟨c, hc ▸ provenance_from_row_params _ _⟩
  obtain ⟨cs, hcs⟩ := collect_total hcitations
  have hsourced : cs ≠ [] := by
    rintro rfl
    obtain ⟨p, hp, hpid⟩ := hwf.sourced r hr
    have hmem : p ∈ SELECT_PROVENANCE r.id db := by
      rw [SELECT_PROVENANCE, List.mem_insertionSort, List.mem_filter]
      exact ⟨hp, by simpa using hpid⟩
    have hlen := (collect_ok.mp hcs).length_eq
    rw [List.length_nil, List.length_eq_zero_iff] at hlen
    rw [hlen] at hmem
    cases hmem
  obtain ⟨object, hobject⟩ := Option.isSome_iff_exists.mp hvalue
  obtain ⟨hc, hrisk, hn, hi, -⟩ := AssertionRow.violated_eq_none.mp (hwf.checked r hr)
  obtain ⟨a, ha⟩ : ∃ a, assertion_from_row r cs = .ok a := by
    simp only [assertion_from_row, hobject, dif_pos hc, dif_pos hrisk, dif_pos hsourced, dif_pos hn,
      dif_pos hi, Except.ok.injEq, exists_eq']
  exact ⟨a, bind_ok.mpr ⟨cs, hcs, ha⟩⟩

theorem scored_row_ok {hit : ScoredAssertion} (h : scored_row deps vector db r = .ok hit) :
    hydrate db r = .ok hit.assertion ∧ hit.assertion.assertion_id = r.id := by
  simp only [scored_row, bind_ok, Except.ok.injEq] at h
  obtain ⟨a, ha, rfl⟩ := h
  obtain ⟨cs, -, hrow⟩ := bind_ok.mp ha
  exact ⟨ha, (assertion_from_row_ok hrow).1⟩

/-- A read that can hydrate the rows its clauses admit answers with the nearest of them. -/
theorem search_hydrated {clauses : List Clause}
    (hread : ∀ r ∈ selected cast tenant clauses db, ∃ a, hydrate db r = .ok a)
    (hclauses : bound_clauses cast ns filters as_of = .ok clauses) :
    ∃ hits, PgVectorStore.search cast deps tenant ns vector k filters as_of db = .ok hits ∧
      List.Forall₂ (fun r hit => hydrate db r = .ok hit.assertion ∧ hit.assertion.assertion_id = r.id)
        (nearest_rows deps vector k (selected cast tenant clauses db)) hits := by
  have hscored : ∀ r ∈ nearest_rows deps vector k (selected cast tenant clauses db),
      ∃ hit, scored_row deps vector db r = .ok hit := by
    intro r hr
    obtain ⟨a, ha⟩ := hread r (nearest_rows_mem hr)
    exact ⟨_, bind_ok.mpr ⟨a, ha, rfl⟩⟩
  obtain ⟨hits, hhits⟩ := collect_total hscored
  exact ⟨hits, bind_ok.mpr ⟨clauses, hclauses, hhits⟩, (collect_ok.mp hhits).imp fun _ _ => scored_row_ok⟩

theorem search_ids {clauses : List Clause}
    (hread : ∀ r ∈ selected cast tenant clauses db, ∃ a, hydrate db r = .ok a)
    (hclauses : bound_clauses cast ns filters as_of = .ok clauses) :
    ∃ hits, PgVectorStore.search cast deps tenant ns vector k filters as_of db = .ok hits ∧
      hits.map (fun hit => hit.assertion.assertion_id) =
        (nearest_rows deps vector k (selected cast tenant clauses db)).map AssertionRow.id := by
  obtain ⟨hits, hhits, hrows⟩ := search_hydrated hread hclauses
  refine ⟨hits, hhits, ?_⟩
  rw [← List.forall₂_eq_eq_eq, List.forall₂_map_left_iff, List.forall₂_map_right_iff]
  exact hrows.flip.imp fun _ _ h => h.2

variable (deps tenant vector k) in
/-- CORRECT: a read answers with the rows its clauses admit, nearest first, as far as `k` goes. -/
theorem search_rows {clauses : List Clause} (hwf : Wf uuid db)
    (hvalues : ∀ r ∈ db.assertions, (ObjectValue.ofJson r.object_json).isSome = true)
    (hclauses : bound_clauses cast ns filters as_of = .ok clauses) :
    ∃ hits, PgVectorStore.search cast deps tenant ns vector k filters as_of db = .ok hits ∧
      hits.map (fun hit => hit.assertion.assertion_id) =
        (nearest_rows deps vector k (selected cast tenant clauses db)).map AssertionRow.id := by
  refine search_ids (fun r hr => ?_) hclauses
  have hrow := (mem_selected.mp hr).1
  exact hydrate_legible hwf hrow (hvalues r hrow)

/-- What the pipeline's retrieval asks of a row. -/
theorem bound_now {subject_id : EntityId} {predicate : String}
    (hcast : (cast subject_id).isSome = true) :
    bound_clauses cast ns [("subject_id", subject_id), ("predicate", predicate)] none =
      .ok (ALWAYS ns ++ [.live, .subject_id subject_id, .predicate predicate]) := by
  simp [bound_clauses, predicates, ALWAYS, temporal, collect, filter_clause, Clause.bind, hcast, bind,
    Except.bind]

/-- The pipeline's retrieval is this read, with the subject and the predicate bound. -/
theorem search_now {subject_id : EntityId} {predicate : String}
    (hcast : cast subject_id = some subject_id) :
    PgVectorStore.search cast deps tenant ns vector k
      [("subject_id", subject_id), ("predicate", predicate)] none db =
    search deps tenant ns subject_id predicate vector k db := by
  have hrows : selected cast tenant (ALWAYS ns ++ [.live, .subject_id subject_id, .predicate predicate])
      db = db.assertions.filter (readable tenant ns subject_id predicate) := by
    refine List.filter_congr fun r _ => ?_
    rw [Bool.eq_iff_iff]
    simp only [ALWAYS, Clause.holds, hcast, readable, List.cons_append, List.nil_append, List.all_cons,
      List.all_nil, Bool.and_true, Bool.and_eq_true, beq_iff_eq, Option.some.injEq]
    tauto
  rw [PgVectorStore.search, bound_now (by rw [hcast]; rfl)]
  change collect _ (nearest_rows deps vector k (selected cast tenant _ db)) = _
  rw [hrows]
  rfl

end GuardMem
