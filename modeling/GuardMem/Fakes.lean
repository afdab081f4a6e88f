import GuardMem.Memory.TypedRows
import GuardMem.Retired

/-! `FakeVectorStore`, the unit suite's store, beside the one it stands in for.

    The fake replaces the row under an id where the statement does nothing, checks no constraint, has no
    column that rounds or refuses a value, looks at every row where an index scan stops at forty, and
    leaves `visible` and `retracted_at` out of its retired read. CORRECT: in a run that writes what the
    columns keep, each id once or again as it stands, retires only rows that have been revealed, and has
    no more live rows shown than one scan finds, the two stores raise on the same operations and answer
    every read with the same rows (`fake_simulates`); a retried write of a superseded row brings it back
    in the fake alone (`fake_resurrects`). -/

namespace GuardMem

open Lib.Table Lib.Transition

/-! ### The unit suite's store -/

/-- The fields of an assertion as `model_copy` leaves them: no validator has run. -/
structure Fields where
  assertion_id : AssertionId
  tenant_id : TenantId
  «namespace» : Namespace
  subject_id : EntityId
  predicate : String
  object : ObjectValue
  confidence : ℚ
  risk : ℚ
  valid_from : Time
  valid_to : Option Time
  recorded_at : Time
  retracted_at : Option Time
  superseded_by : Option AssertionId
  provenance : List Provenance
  corroboration_count : ℕ
  trace_id : TraceId
  visible : Bool
  deriving DecidableEq

def StoredAssertion.fields (a : StoredAssertion) : Fields :=
  ⟨a.assertion_id, a.tenant_id, a.namespace, a.subject_id, a.predicate, a.object, a.confidence.1, a.risk.1,
    a.valid_from, a.valid_to, a.recorded_at, a.retracted_at, a.superseded_by, a.provenance,
    a.corroboration_count, a.trace_id, a.visible⟩

/-- Everything ever written, by id. -/
structure FakeVectorStore where
  assertions : List Fields := []

namespace FakeVectorStore

def SEARCHABLE : List String := ["subject_id", "predicate"]

/-- Refuse a filter key the real store would refuse. -/
def check_filters (filters : List (String × String)) : Except Exc Unit :=
  let unknown := ((filters.map Prod.fst).eraseDups.filter fun key => !SEARCHABLE.contains key).insertionSort
    (· ≤ ·)
  require (unknown = []) (.KeyError ("[" ++ ", ".intercalate (unknown.map quoted) ++
    "] is not a searchable column; allowed: ['predicate', 'subject_id']. " ++
    "This fake refuses exactly what PgVectorStore refuses."))

/-- Is this assertion believed now, or was it true at `as_of`? -/
def is_valid_at (f : Fields) : Option Time → Bool
  | none => f.valid_to.isNone
  | some t => f.valid_from ≤ t && f.valid_to.all fun u => t < u

/-- `getattr(assertion, attribute, None) == expected`. -/
def has_value (f : Fields) : String × String → Bool
  | ("subject_id", expected) => f.subject_id == expected
  | ("predicate", expected) => f.predicate == expected
  | _ => false

/-- Store assertions, replacing any earlier row with the same id. -/
def upsert (assertions : List StoredAssertion) (store : FakeVectorStore) : FakeVectorStore :=
  ⟨assertions.foldl (fun held a => merge Fields.assertion_id a.fields held) store.assertions⟩

/-- What a search scans for. -/
def found (ns : Namespace) (filters : List (String × String)) (as_of : Option Time) (f : Fields) : Bool :=
  f.namespace == ns && f.visible && is_valid_at f as_of && f.retracted_at.isNone &&
    filters.all (has_value f)

/-- Up to `k` assertions, newest first. The vector is not looked at and every hit scores 1. -/
def search (ns : Namespace) (_vector : List ℚ) (k : ℕ) (filters : List (String × String))
    (as_of : Option Time) (store : FakeVectorStore) : Except Exc (List (Fields × ℚ)) := do
  check_filters filters
  .ok (((store.assertions.reverse.filter (found ns filters as_of)).take k).map fun f => (f, 1))

/-- What the retired read scans for. -/
def stopped (ns : Namespace) (filters : List (String × String)) (f : Fields) : Bool :=
  f.namespace == ns && f.valid_to.isSome && filters.all (has_value f)

/-- Retired assertions, newest retirement first; ties keep insertion order. -/
def retired (ns : Namespace) (filters : List (String × String)) (limit : ℕ) (store : FakeVectorStore) :
    Except Exc (List Fields) := do
  check_filters filters
  .ok (((store.assertions.filter (stopped ns filters)).insertionSort fun a b =>
    b.valid_to.getD 0 ≤ a.valid_to.getD 0).take limit)

/-- Retire `old` in favour of `new`, without deleting anything. -/
def supersede (old new : AssertionId) (t : Time) (store : FakeVectorStore) : Except Exc FakeVectorStore :=
  match store.assertions.find? fun f => f.assertion_id == old with
  | some incumbent =>
      if incumbent.valid_to.isSome then
        .error (.ConcurrencyConflict ("assertion " ++ old ++ " is not live; it was already superseded or " ++
          "never written. Re-read with search() and re-propose."))
      else .ok ⟨updateWhere (fun f => f.assertion_id == old)
        (fun f => { f with valid_to := some t, superseded_by := some new }) store.assertions⟩
  | none => .error (.ConcurrencyConflict ("assertion " ++ old ++ " is not live; it was already " ++
      "superseded or never written. Re-read with search() and re-propose."))

/-- What the relay does to a row, done to this store's. -/
def reveal (id : AssertionId) (store : FakeVectorStore) : FakeVectorStore :=
  ⟨updateWhere (fun f => f.assertion_id == id) (fun f => { f with visible := true }) store.assertions⟩

end FakeVectorStore

/-! ### The real store, down to its columns -/

/-- What stands around the store: how a text is read as a UUID, what JSONB gives back of a value, and the
    tables a row refers to. `none` is an error of the driver or the column. -/
structure Columns where
  uuid : UuidCast
  jsonb : Json → Option Json
  tenants : List TenantId
  entities : List EntityId

variable (columns : Columns)

/-- The row as its columns hold it: UUID, TEXT, JSONB, REAL and INTEGER. -/
def AssertionRow.typed (r : AssertionRow) : Option AssertionRow := do
  let id ← columns.uuid r.id
  let tenant_id ← columns.uuid r.tenant_id
  let ns ← TypedRows.text r.namespace
  let subject_id ← columns.uuid r.subject_id
  let predicate ← TypedRows.text r.predicate
  let object_json ← columns.jsonb r.object_json
  let superseded_by ← r.superseded_by.mapM columns.uuid
  let corroboration_count ← TypedRows.int4 r.corroboration_count
  let trace_id ← TypedRows.text r.trace_id
  some { r with
    id := id, tenant_id := tenant_id, «namespace» := ns, subject_id := subject_id, predicate := predicate
    object_json := object_json, confidence := TypedRows.real r.confidence, risk := TypedRows.real r.risk
    superseded_by := superseded_by, corroboration_count := corroboration_count, trace_id := trace_id }

def ProvenanceRow.typed (p : ProvenanceRow) : Option ProvenanceRow := do
  let id ← columns.uuid p.id
  let assertion_id ← columns.uuid p.assertion_id
  let source_hash ← TypedRows.text p.source_hash
  let span_start ← TypedRows.int4 p.span_start
  let span_end ← TypedRows.int4 p.span_end
  let source_tier ← TypedRows.text p.source_tier
  let verbatim ← TypedRows.text p.verbatim
  some { p with
    id := id, assertion_id := assertion_id, source_hash := source_hash, span_start := span_start
    span_end := span_end, source_tier := source_tier, verbatim := verbatim
    alignment := TypedRows.real p.alignment }

def OutboxRow.typed (o : OutboxRow) : Option OutboxRow := do
  let id ← columns.uuid o.id
  let assertion_id ← columns.uuid o.assertion_id
  let event ← columns.jsonb o.event
  some { o with id := id, assertion_id := assertion_id, event := event }

/-- A value that cannot be had is an error. -/
def column {α : Type} (value : String) : Option α → Except Exc α
  | some x => .ok x
  | none => .error (.DataError value)

/-- The three row sets as the tables take them. -/
def PreparedWrite.typed (prepared : PreparedWrite) : Except Exc PreparedWrite := do
  .ok ⟨← collect (fun r => column "assertion" (r.typed columns)) prepared.assertions,
    ← collect (fun p => column "provenance" (p.typed columns)) prepared.citations,
    ← collect (fun o => column "outbox" (o.typed columns)) prepared.events⟩

/-- The row's tenant and its subject are there. -/
def Columns.Refers (r : AssertionRow) : Prop :=
  r.tenant_id ∈ columns.tenants ∧ r.subject_id ∈ columns.entities

instance decidableRefers (r : AssertionRow) : Decidable (columns.Refers r) := inferInstanceAs (Decidable (_ ∧ _))

namespace PgVectorStore

/-- Write assertions, their citations and their outbox events, atomically. -/
def upsert (deps : Deps) (tenant : TenantId) (now : Time) (assertions : List StoredAssertion) (db : Db) :
    Except Exc Db :=
  match prepare deps tenant now assertions with
  | none => .ok db
  | some prepared => do
      let rows ← prepared.typed columns
      let (_, db) ← transaction (fun before => do
        let db ← write_in deps tenant rows before
        require (∀ r ∈ db.assertions, r ∈ before.assertions ∨ columns.Refers r)
          (.ForeignKeyViolation "assertion")
        .ok ((), db)) db
      .ok db

/-- Retire `old` in a transaction of its own. -/
def supersede (tenant : TenantId) (old new : AssertionId) (t : Time) (db : Db) : Except Exc Db := do
  let new_id ← column new (columns.uuid new)
  let old_id ← column old (columns.uuid old)
  let (_, db) ← transaction (fun db => do
    let (status, db) ← SUPERSEDE tenant t new_id old_id db
    require (status ≠ 0) (.ConcurrencyConflict (conflict_message tenant old))
    .ok ((), db)) db
  .ok db

/-- What the relay does to a row. -/
def reveal (tenant : TenantId) (id : AssertionId) (db : Db) : Except Exc Db := do
  .ok (REVEAL_ASSERTION tenant (← column id (columns.uuid id)) db)

end PgVectorStore

/-! ### The two stores, side by side -/

/-- One call on a store, or one pass of the relay over a row. -/
inductive StoreOp where
  | upsert (now : Time) (assertions : List StoredAssertion)
  | supersede (old new : AssertionId) (t : Time)
  | reveal (id : AssertionId)

/-- The two stores, and whether the last operation raised in both or in neither. -/
structure StorePair where
  fake : FakeVectorStore
  db : Db
  alike : Bool

def StorePair.empty : StorePair := ⟨{}, .empty, true⟩

/-- What an operation answers in each; a store that raises is left as it was. -/
def StorePair.settle (s : StorePair) (fake : Except Exc FakeVectorStore) (db : Except Exc Db) : StorePair :=
  ⟨fake.toOption.getD s.fake, db.toOption.getD s.db, fake.toOption.isSome == db.toOption.isSome⟩

variable (deps : Deps) (tenant : TenantId)

def StorePair.step (s : StorePair) : StoreOp → Option StorePair
  | .upsert now as =>
      some (s.settle (.ok (s.fake.upsert as)) (PgVectorStore.upsert columns deps tenant now as s.db))
  | .supersede old new t =>
      some (s.settle (s.fake.supersede old new t) (PgVectorStore.supersede columns tenant old new t s.db))
  | .reveal id => some (s.settle (.ok (s.fake.reveal id)) (PgVectorStore.reveal columns tenant id s.db))

/-- Two answers are refusals, or the same rows. -/
def SameRows : Except Exc (List Fields) → Except Exc (List Fields) → Prop
  | .ok xs, .ok ys => ∀ f, f ∈ xs ↔ f ∈ ys
  | .error _, .error _ => True
  | _, _ => False

theorem sameRows_ok (xs ys : List Fields) : xs ⊆ ys ∧ ys ⊆ xs ↔ SameRows (.ok xs) (.ok ys) :=
  ⟨fun h _ => ⟨@h.1 _, @h.2 _⟩, fun h => ⟨fun f => (h f).mp, fun f => (h f).mpr⟩⟩

instance : ∀ xs ys, Decidable (SameRows xs ys)
  | .ok xs, .ok ys => decidable_of_iff _ (sameRows_ok xs ys)
  | .error _, .error _ => isTrue trivial
  | .ok _, .error _ => isFalse id
  | .error _, .ok _ => isFalse id

/-- A read names an entity by its id as the column gives it back, and asks with texts and a number of rows
    that Postgres takes. -/
structure Columns.Takes (ns : Namespace) (filters : List (String × String)) (limit : ℕ) : Prop where
  named : ∀ text, ("subject_id", text) ∈ filters → columns.uuid text = some text
  clean : TypedRows.NulFree ns ∧ ∀ filter ∈ filters, TypedRows.NulFree filter.2
  counted : limit < 2 ^ 63

/-- The last operation raised in both or in neither, and with room for all rows the reads answer alike,
    however Postgres plans them. -/
structure StorePair.Agree (s : StorePair) : Prop where
  raised : s.alike = true
  search : ∀ plan : Plan, plan.Conforms s.db → plan.Full s.db → ∀ ns vector filters as_of k,
    columns.Takes ns filters k → s.fake.assertions.length ≤ k → s.db.assertions.length ≤ k →
    SameRows ((s.fake.search ns vector k filters as_of).map (List.map Prod.fst))
      ((plan.search columns.uuid deps tenant ns vector k filters as_of s.db).map
        (List.map fun hit => hit.assertion.fields))
  retired : ∀ ns filters limit, columns.Takes ns filters limit → s.fake.assertions.length ≤ limit →
    s.db.assertions.length ≤ limit →
    SameRows (s.fake.retired ns filters limit)
      ((PgVectorStore.retired columns.uuid tenant ns filters limit s.db).map
        (List.map StoredAssertion.fields))

/-- The columns keep the assertion, its citations and its event as they are, and its tenant and its subject
    are there to be referred to. -/
@[mk_iff]
structure Columns.Keeps (now : Time) (a : StoredAssertion) : Prop where
  row : (assertion_params a tenant (deps.embedding a.predicate a.object)).typed columns =
    some (assertion_params a tenant (deps.embedding a.predicate a.object))
  citations : ∀ p ∈ provenance_params deps.uuid a, p.typed columns = some p
  event : (outbox_params deps.uuid a tenant now).typed columns = some (outbox_params deps.uuid a tenant now)
  refers : tenant ∈ columns.tenants ∧ a.subject_id ∈ columns.entities

instance decidableKeeps (now : Time) (a : StoredAssertion) : Decidable (columns.Keeps deps tenant now a) :=
  decidable_of_iff' _ (columns.keeps_iff deps tenant now a)

/-- An assertion as the real store would write it: under a UUID, the store's tenant's, not yet visible, not
    yet retired, after what it names as its successor, its citations distinct and each captured after the
    one before. -/
@[mk_iff]
structure Unwritten (held : List Fields) (a : StoredAssertion) : Prop where
  unused : a.assertion_id ∉ held.map Fields.assertion_id
  valid : deps.uuid.valid a.assertion_id = true
  owned : a.tenant_id = tenant
  invisible : a.visible = false
  open_ended : a.valid_to = none
  linked : ∀ s ∈ a.superseded_by, s ∈ held.map Fields.assertion_id
  cited : (a.provenance.map (citation_id deps.uuid a.assertion_id)).Nodup
  captured : a.provenance.Pairwise fun p q => p.captured_at < q.captured_at

/-- Each assertion of a batch is new, or the one held under its id as it stands. -/
def FreshOrHeld : List Fields → List StoredAssertion → Prop
  | _, [] => True
  | held, a :: as => (Unwritten deps tenant held a ∨ a.fields ∈ held) ∧
      FreshOrHeld (merge Fields.assertion_id a.fields held) as

instance (held : List Fields) (a : StoredAssertion) : Decidable (Unwritten deps tenant held a) :=
  decidable_of_iff' _ (unwritten_iff deps tenant held a)

instance decidableFreshOrHeld : ∀ (held : List Fields) (as : List StoredAssertion),
    Decidable (FreshOrHeld deps tenant held as)
  | _, [] => isTrue trivial
  | held, a :: as =>
      have := decidableFreshOrHeld (merge Fields.assertion_id a.fields held) as
      inferInstanceAs (Decidable (_ ∧ _))

/-- A row is retired once it has been revealed, by a successor that is there, and not before it began. -/
@[mk_iff]
structure Retirable (held : List Fields) (f : Fields) (new : AssertionId) (t : Time) : Prop where
  visible : f.visible = true
  unretracted : f.retracted_at = none
  stored : new ∈ held.map Fields.assertion_id
  other : new ≠ f.assertion_id
  begun : f.valid_from ≤ t

instance (held : List Fields) (f : Fields) (new : AssertionId) (t : Time) :
    Decidable (Retirable held f new t) := decidable_of_iff' _ (retirable_iff held f new t)

/-- Live and shown: the rows of the real store's index. -/
def Fields.shown (f : Fields) : Bool := f.valid_to.isNone && f.visible

/-- No operation asks for what one of the stores does by itself. -/
def StorePair.Plain (s : StorePair) : StoreOp → Prop
  | .upsert now as => (∀ a ∈ as, columns.Keeps deps tenant now a) ∧
      FreshOrHeld deps tenant s.fake.assertions as
  | .supersede old new t => ∀ f ∈ s.fake.assertions, f.valid_to = none →
      (f.assertion_id = old ∨ columns.uuid old = some f.assertion_id) →
      f.assertion_id = old ∧ columns.uuid old = some old ∧ columns.uuid new = some new ∧
        Retirable s.fake.assertions f new t
  | .reveal id => columns.uuid id = some id ∧ (s.fake.assertions.filter fun f =>
      f.valid_to.isNone && (f.visible || f.assertion_id == id)).length ≤ EF_SEARCH

instance (s : StorePair) : ∀ op, Decidable (s.Plain columns deps tenant op)
  | .upsert _ _ => inferInstanceAs (Decidable (_ ∧ _))
  | .supersede _ _ _ => inferInstanceAs (Decidable (∀ f ∈ s.fake.assertions, _))
  | .reveal _ => inferInstanceAs (Decidable (_ ∧ _))

/-! ### Rows that mirror each other -/

/-- What a row says, its value and its citations read back. -/
def AssertionRow.fields (r : AssertionRow) (object : ObjectValue) (citations : List Provenance) : Fields :=
  ⟨r.id, r.tenant_id, r.namespace, r.subject_id, r.predicate, object, r.confidence, r.risk, r.valid_from,
    r.valid_to, r.recorded_at, r.retracted_at, r.superseded_by, citations, r.corroboration_count,
    r.trace_id, r.visible⟩

/-- The row says what the fake holds. -/
structure Mirror (db : Db) (f : Fields) (r : AssertionRow) : Prop where
  owned : r.tenant_id = tenant
  embedded : r.embedding.isSome = true
  object : ObjectValue.ofJson r.object_json = some f.object
  cited : fetch_citations db r.id = .ok f.provenance
  columns : f = r.fields f.object f.provenance

/-- The invariant: the two stores hold the same rows in the same order, none is retired unseen, and the
    index is no larger than one scan of it. -/
structure StorePair.Mirrored (s : StorePair) : Prop where
  wf : Wf deps.uuid s.db
  rows : List.Forall₂ (Mirror tenant s.db) s.fake.assertions s.db.assertions
  shown : ∀ r ∈ s.db.assertions, r.valid_to ≠ none → r.visible = true ∧ r.retracted_at = none
  room : (s.fake.assertions.filter Fields.shown).length ≤ EF_SEARCH
  alike : s.alike = true

variable {columns deps tenant} {s s' : StorePair} {db db' : Db} {f : Fields} {r : AssertionRow} {ns : Namespace}
  {filters : List (String × String)} {as_of : Option Time} {fs : List Clause} {a : StoredAssertion} {k : ℕ}

theorem assertion_from_row_fields {ps : List Provenance} (h : assertion_from_row r ps = .ok a) :
    a.fields = r.fields a.object ps ∧ ObjectValue.ofJson r.object_json = some a.object := by
  unfold assertion_from_row at h
  split at h
  · cases h
  · next object hobject =>
      split_ifs at h
      obtain rfl := Except.ok.inj h
      exact ⟨rfl, hobject⟩

/-- A mirrored row reads back as what the fake holds. -/
theorem Mirror.hydrate (h : Mirror tenant db f r) (hwf : Wf deps.uuid db) (hr : r ∈ db.assertions) :
    ∃ a, GuardMem.hydrate db r = .ok a ∧ a.fields = f := by
  obtain ⟨a, ha⟩ := hydrate_legible hwf hr (by rw [h.object]; rfl)
  refine ⟨a, ha, ?_⟩
  obtain ⟨ps, hps, hrow⟩ := bind_ok.mp ha
  obtain rfl := Except.ok.inj (hps.symm.trans h.cited)
  obtain ⟨hfields, hobject⟩ := assertion_from_row_fields hrow
  rw [hfields, ← Option.some.inj (h.object.symm.trans hobject)]
  exact h.columns.symm

/-! ### The reads -/

theorem check_filters_ok : FakeVectorStore.check_filters filters = .ok () ↔
    ∀ filter ∈ filters, filter.1 = "subject_id" ∨ filter.1 = "predicate" := by
  simp only [FakeVectorStore.check_filters, require_ok]
  rw [← List.length_eq_zero_iff, List.length_insertionSort, List.length_eq_zero_iff,
    List.filter_eq_nil_iff]
  simp [FakeVectorStore.SEARCHABLE, or_iff_not_imp_left]

/-- The two stores take the same filters. -/
theorem bound_filters_ok (htakes : columns.Takes ns filters k) :
    (∃ fs, bound_filters columns.uuid filters = .ok fs) ↔
      FakeVectorStore.check_filters filters = .ok () := by
  rw [check_filters_ok]
  constructor
  · rintro ⟨fs, hfs⟩ filter hfilter
    simp only [bound_filters, bind_ok] at hfs
    obtain ⟨clauses, hclauses, -⟩ := hfs
    obtain ⟨clause, -, hclause⟩ := forall₂_of_mem_right (collect_ok.mp hclauses).flip hfilter
    rcases filter_clause_ok hclause with ⟨hkey, -⟩ | ⟨hkey, -⟩
    · exact Or.inl hkey
    · exact Or.inr hkey
  · intro h
    refine bound_filters_total ?_
    rintro ⟨key, value⟩ hfilter
    rcases h _ hfilter with hkey | hkey <;> simp only at hkey <;> subst hkey
    · exact ⟨.subject_id value, rfl, by simp [Clause.bind, htakes.named value hfilter]⟩
    · exact ⟨.predicate value, rfl, rfl⟩

/-- What Postgres refuses the fake refuses too. -/
theorem check_filters_refused (htakes : columns.Takes ns filters k) {e : Exc}
    (h : bound_filters columns.uuid filters = .error e) :
    ∃ e', FakeVectorStore.check_filters filters = .error e' := by
  cases hcheck : FakeVectorStore.check_filters filters with
  | error e' => exact ⟨e', rfl⟩
  | ok u =>
      obtain ⟨fs, hfs⟩ := (bound_filters_ok htakes).mpr hcheck
      rw [hfs] at h
      cases h

theorem matches_has_value (htakes : columns.Takes ns filters k) (h : Mirror tenant db f r) :
    filters.all (matches_filter columns.uuid r) = filters.all (FakeVectorStore.has_value f) := by
  rw [Bool.eq_iff_iff, List.all_eq_true, List.all_eq_true]
  refine forall₂_congr fun filter hfilter => ?_
  rw [← Bool.eq_iff_iff]
  obtain ⟨key, value⟩ := filter
  have hsubject : f.subject_id = r.subject_id := by rw [h.columns]; rfl
  have hpredicate : f.predicate = r.predicate := by rw [h.columns]; rfl
  unfold FakeVectorStore.has_value
  split
  · next heq =>
      cases heq
      simp [matches_filter, htakes.named value hfilter, hsubject, eq_comm, Bool.beq_eq_decide_eq]
  · next heq =>
      cases heq
      simp [matches_filter, hpredicate]
  · next hs hp =>
      have hnot : key ≠ "subject_id" ∧ key ≠ "predicate" :=
        ⟨fun hk => hs value (by rw [hk]), fun hk => hp value (by rw [hk])⟩
      simp [matches_filter, hnot.1, hnot.2]

/-- What the read of the real store asks of a row is what the fake asks of its mirror. -/
theorem selected_found (htakes : columns.Takes ns filters k) (h : bound_filters columns.uuid filters = .ok fs)
    (hm : Mirror tenant db f r) :
    (r.tenant_id == tenant && (ALWAYS ns ++ temporal as_of :: fs).all (Clause.holds columns.uuid r)) =
      FakeVectorStore.found ns filters as_of f := by
  have htime : (temporal as_of).holds columns.uuid r = FakeVectorStore.is_valid_at f as_of := by
    rw [hm.columns]
    cases as_of <;> rfl
  have hcolumns : f.namespace = r.namespace ∧ f.visible = r.visible ∧ f.retracted_at = r.retracted_at := by
    rw [hm.columns]
    exact ⟨rfl, rfl, rfl⟩
  obtain ⟨hns, hvisible, hretracted⟩ := hcolumns
  simp only [ALWAYS, List.cons_append, List.nil_append, List.all_cons]
  rw [htime]
  simp only [bound_filters_hold h, matches_has_value htakes hm, Clause.holds, hm.owned, hm.embedded,
    FakeVectorStore.found, hns, hvisible, hretracted, beq_self_eq_true, Bool.true_and]
  ac_rfl

/-- And for the retired read, none of whose rows is invisible or retracted. -/
theorem selected_stopped (htakes : columns.Takes ns filters k) (h : bound_filters columns.uuid filters = .ok fs)
    (hm : Mirror tenant db f r) (hshown : r.valid_to ≠ none → r.visible = true ∧ r.retracted_at = none) :
    (r.tenant_id == tenant && (ALWAYS ns ++ .retired :: fs).all (Clause.holds columns.uuid r)) =
      FakeVectorStore.stopped ns filters f := by
  have hcolumns : f.namespace = r.namespace ∧ f.valid_to = r.valid_to := by
    rw [hm.columns]
    exact ⟨rfl, rfl⟩
  simp only [ALWAYS, List.cons_append, List.nil_append, List.all_cons, bound_filters_hold h,
    matches_has_value htakes hm, Clause.holds, hm.owned, hm.embedded, FakeVectorStore.stopped,
    hcolumns.1, hcolumns.2, beq_self_eq_true, Bool.true_and]
  cases hto : r.valid_to with
  | none => simp
  | some t =>
      obtain ⟨hvisible, hretracted⟩ := hshown (by simp [hto])
      simp [hvisible, hretracted]

/-- Rows read off mirroring tables by one condition are the same. -/
theorem mem_mirrored (hwf : Wf deps.uuid db) {held : List Fields} {rows : List AssertionRow}
    (hrows : List.Forall₂ (Mirror tenant db) held rows) (hsub : ∀ r ∈ rows, r ∈ db.assertions)
    {p : Fields → Bool} {q : AssertionRow → Bool}
    (hpq : ∀ f r, r ∈ rows → Mirror tenant db f r → q r = p f) :
    f ∈ held.filter p ↔ ∃ r ∈ rows.filter q, ∃ a, GuardMem.hydrate db r = .ok a ∧ a.fields = f := by
  constructor
  · intro hf
    obtain ⟨hf, hp⟩ := List.mem_filter.mp hf
    obtain ⟨r, hr, hm⟩ := forall₂_of_mem_right hrows.flip hf
    exact ⟨r, List.mem_filter.mpr ⟨hr, (hpq f r hr hm).trans hp⟩, hm.hydrate hwf (hsub r hr)⟩
  · rintro ⟨r, hr, a, ha, rfl⟩
    obtain ⟨hr, hq⟩ := List.mem_filter.mp hr
    obtain ⟨f, hf, hm⟩ := forall₂_of_mem_right hrows hr
    obtain ⟨a', ha', rfl⟩ := hm.hydrate hwf (hsub r hr)
    obtain rfl := Except.ok.inj (ha.symm.trans ha')
    exact List.mem_filter.mpr ⟨hf, (hpq _ r hr hm).symm.trans hq⟩

theorem scored_row_fields {vector : List ℚ} : (∃ hit, scored_row deps vector db r = .ok hit ∧
    hit.assertion.fields = f) ↔ ∃ a, GuardMem.hydrate db r = .ok a ∧ a.fields = f := by
  constructor
  · rintro ⟨hit, hhit, hf⟩
    exact ⟨_, (scored_row_ok hhit).1, hf⟩
  · rintro ⟨a, ha, hf⟩
    exact ⟨_, bind_ok.mpr ⟨a, ha, rfl⟩, hf⟩

/-- Every row of a mirrored store can be read. -/
theorem StorePair.Mirrored.legible (h : s.Mirrored deps tenant) :
    ∀ r ∈ s.db.assertions, (ObjectValue.ofJson r.object_json).isSome = true := by
  intro r hr
  obtain ⟨f, -, hm⟩ := forall₂_of_mem_right h.rows hr
  rw [hm.object]
  rfl

/-- The index has a row for each live row the fake shows. -/
theorem index_mirrored {held : List Fields} {rows : List AssertionRow}
    (h : List.Forall₂ (Mirror tenant db) held rows) :
    (rows.filter fun r => r.valid_to.isNone && r.visible && r.embedding.isSome).length =
      (held.filter Fields.shown).length := by
  induction h with
  | nil => rfl
  | @cons f r held rows hm _ ih =>
      have hshown : f.shown = (r.valid_to.isNone && r.visible && r.embedding.isSome) := by
        rw [hm.columns, hm.embedded, Bool.and_true]
        rfl
      rw [List.filter_cons, List.filter_cons, hshown]
      split <;> simp [ih]

/-- Whatever its plan, a read of mirroring stores comes to every row its clauses admit. -/
theorem StorePair.Mirrored.selects (h : s.Mirrored deps tenant) {plan : Plan} (hplan : plan.Conforms s.db)
    (hfull : plan.Full s.db) {cast : UuidCast} :
    r ∈ selected cast tenant (ALWAYS ns ++ temporal as_of :: fs) ((plan.as_of as_of).view s.db) ↔
      r ∈ selected cast tenant (ALWAYS ns ++ temporal as_of :: fs) s.db := by
  cases as_of with
  | some t => exact Iff.rfl
  | none =>
      have hroom : (partial_index s.db).length ≤ EF_SEARCH := (index_mirrored h.rows).trans_le h.room
      refine (mem_selected_view hplan).trans ⟨fun hr => hr.1, fun hr => ⟨hr, ?_⟩⟩
      exact Plan.view_covers hplan hfull hroom (selected_indexed hr)

/-- Mirroring stores answer a search alike. -/
theorem search_agree (h : s.Mirrored deps tenant) {plan : Plan} (hplan : plan.Conforms s.db)
    (hfull : plan.Full s.db) {vector : List ℚ} {k : ℕ} (htakes : columns.Takes ns filters k)
    (hfake : s.fake.assertions.length ≤ k) (hdb : s.db.assertions.length ≤ k) :
    SameRows ((s.fake.search ns vector k filters as_of).map (List.map Prod.fst))
      ((plan.search columns.uuid deps tenant ns vector k filters as_of s.db).map
        (List.map fun hit => hit.assertion.fields)) := by
  cases hfilters : bound_filters columns.uuid filters with
  | error e =>
      obtain ⟨e', hrefused⟩ := check_filters_refused htakes hfilters
      rw [Plan.search, PgVectorStore.search, bound_clauses_eq, hfilters, FakeVectorStore.search, hrefused]
      trivial
  | ok fs =>
      have hcheck := (bound_filters_ok htakes).mp ⟨fs, hfilters⟩
      have hclauses : bound_clauses columns.uuid ns filters as_of =
          .ok (ALWAYS ns ++ temporal as_of :: fs) := by
        rw [bound_clauses_eq, hfilters]
        rfl
      have hconforms : (plan.as_of as_of).Conforms s.db := conforms_as_of hplan
      obtain ⟨hits, hhits, -⟩ := plan_search_rows deps tenant vector k h.wf h.legible hconforms hclauses
      obtain ⟨_, hbound, hcollect⟩ := bind_ok.mp hhits
      obtain rfl := Except.ok.inj (hbound.symm.trans hclauses)
      rw [hhits, FakeVectorStore.search, hcheck]
      intro f
      have hroom : (s.fake.assertions.reverse.filter (FakeVectorStore.found ns filters as_of)).length ≤ k :=
        ((List.length_filter_le _ _).trans_eq List.length_reverse).trans hfake
      have hleft : f ∈ (((s.fake.assertions.reverse.filter (FakeVectorStore.found ns filters as_of)).take
          k).map fun f => ((f, 1) : Fields × ℚ)).map Prod.fst ↔
          f ∈ s.fake.assertions.filter (FakeVectorStore.found ns filters as_of) := by
        rw [List.take_of_length_le hroom, List.map_map]
        simp
      have hview : (selected columns.uuid tenant (ALWAYS ns ++ temporal as_of :: fs)
          ((plan.as_of as_of).view s.db)).length ≤ k :=
        ((selected_view_length hconforms).trans (List.length_filter_le _ _)).trans hdb
      have hright : f ∈ hits.map (fun hit => hit.assertion.fields) ↔
          ∃ r ∈ selected columns.uuid tenant (ALWAYS ns ++ temporal as_of :: fs) s.db,
            ∃ a, GuardMem.hydrate s.db r = .ok a ∧ a.fields = f := by
        rw [List.mem_map]
        constructor
        · rintro ⟨hit, hhit, hf⟩
          obtain ⟨r, hr, hrow⟩ := (mem_collect hcollect).mp hhit
          have hread := scored_row_fields.mp ⟨hit, hrow, hf⟩
          rw [hydrate_view] at hread
          exact ⟨r, (h.selects hplan hfull).mp (nearest_rows_mem hr), hread⟩
        · rintro ⟨r, hr, hread⟩
          have hread : ∃ a, GuardMem.hydrate ((plan.as_of as_of).view s.db) r = .ok a ∧ a.fields = f := by
            rw [hydrate_view]
            exact hread
          obtain ⟨hit, hhit, hf⟩ := scored_row_fields.mpr hread
          exact ⟨hit, (mem_collect hcollect).mpr
            ⟨r, (nearest_rows_all hview).mpr ((h.selects hplan hfull).mpr hr), hhit⟩, hf⟩
      refine hleft.trans (Iff.trans ?_ hright.symm)
      exact mem_mirrored h.wf h.rows (fun _ hr => hr) fun f r hr hm => selected_found htakes hfilters hm

/-- And a retired read. -/
theorem retired_agree (h : s.Mirrored deps tenant) {limit : ℕ}
    (htakes : columns.Takes ns filters limit)
    (hfake : s.fake.assertions.length ≤ limit) (hdb : s.db.assertions.length ≤ limit) :
    SameRows (s.fake.retired ns filters limit)
      ((PgVectorStore.retired columns.uuid tenant ns filters limit s.db).map
        (List.map StoredAssertion.fields)) := by
  cases hfilters : bound_filters columns.uuid filters with
  | error e =>
      obtain ⟨e', hrefused⟩ := check_filters_refused htakes hfilters
      rw [retired_eq, hfilters, FakeVectorStore.retired, hrefused]
      trivial
  | ok fs =>
      have hcheck := (bound_filters_ok htakes).mp ⟨fs, hfilters⟩
      obtain ⟨retired, hretired, hall⟩ := retired_rows tenant ns limit ⟨s.db, h.wf, h.legible⟩ hfilters
      rw [hretired, FakeVectorStore.retired, hcheck]
      intro f
      have hroom : (s.fake.assertions.filter (FakeVectorStore.stopped ns filters)).length ≤ limit :=
        (List.length_filter_le _ _).trans hfake
      have hleft : f ∈ ((s.fake.assertions.filter (FakeVectorStore.stopped ns filters)).insertionSort
          fun a b => b.valid_to.getD 0 ≤ a.valid_to.getD 0).take limit ↔
          f ∈ s.fake.assertions.filter (FakeVectorStore.stopped ns filters) := by
        rw [List.take_of_length_le (by rwa [List.length_insertionSort]), List.mem_insertionSort]
      have hright : f ∈ retired.map StoredAssertion.fields ↔
          ∃ r ∈ selected columns.uuid tenant (ALWAYS ns ++ .retired :: fs) s.db,
            ∃ a, GuardMem.hydrate s.db r = .ok a ∧ a.fields = f := by
        have hroom : (selected columns.uuid tenant (ALWAYS ns ++ .retired :: fs) s.db).length ≤ limit :=
          (List.length_filter_le _ _).trans hdb
        have hperm := latest_rows_perm hroom
        rw [List.mem_map]
        constructor
        · rintro ⟨a, ha, hf⟩
          obtain ⟨r, hr, hrow⟩ := forall₂_of_mem_right hall ha
          exact ⟨r, hperm.mem_iff.mp hr, a, hrow, hf⟩
        · rintro ⟨r, hr, a, ha, hf⟩
          obtain ⟨a', ha', hrow⟩ := forall₂_of_mem_right hall.flip (hperm.mem_iff.mpr hr)
          obtain rfl := Except.ok.inj (ha.symm.trans hrow)
          exact ⟨a, ha', hf⟩
      refine hleft.trans (Iff.trans ?_ hright.symm)
      exact mem_mirrored h.wf h.rows (fun _ hr => hr) fun f r hr hm =>
        selected_stopped htakes hfilters hm (h.shown r hr)

/-- CORRECT: stores that hold the same rows, none of them retired unseen, answer alike. -/
theorem StorePair.Mirrored.agree (h : s.Mirrored deps tenant) : s.Agree columns deps tenant :=
  ⟨h.alike, fun _ hplan hfull _ _ _ _ _ => search_agree h hplan hfull, fun _ _ _ => retired_agree h⟩

/-! ### What the real store does with a batch -/

variable {now : Time} {as : List StoredAssertion} {held : List Fields}

variable (deps tenant now) in
/-- The tables after one assertion of a batch, its citations and its event. -/
def put (db : Db) (a : StoredAssertion) : Db :=
  { db with
    assertions := insertNew AssertionRow.id
      (assertion_params a tenant (deps.embedding a.predicate a.object)) db.assertions
    provenance := (provenance_params deps.uuid a).foldl (fun t p => insertNew ProvenanceRow.id p t)
      db.provenance
    outbox := insertNew OutboxRow.id (outbox_params deps.uuid a tenant now) db.outbox }

variable (deps tenant) in
/-- What the statement asks of an assertion. -/
structure Insertable (db : Db) (a : StoredAssertion) : Prop where
  valid : deps.uuid.valid a.assertion_id = true
  other : a.superseded_by ≠ some a.assertion_id
  linked : a.assertion_id ∈ db.ids ∨ ∀ s ∈ a.superseded_by, s ∈ db.ids
  owned : ∀ r ∈ db.assertions, r.id = a.assertion_id → r.tenant_id = tenant

variable (deps tenant now) in
def InsertableAll : Db → List StoredAssertion → Prop
  | _, [] => True
  | db, a :: as => Insertable deps tenant db a ∧ InsertableAll (put deps tenant now db a) as

variable (now) in
theorem Insertable.insert (h : Insertable deps tenant db a) {d : Db} (hd : d.assertions = db.assertions) :
    INSERT_ASSERTION deps.uuid tenant (assertion_params a tenant (deps.embedding a.predicate a.object)) d =
      .ok { d with assertions := (put deps tenant now db a).assertions } := by
  refine INSERT_ASSERTION_ok.mpr ⟨h.valid, assertion_params_violated h.other, rfl, ?_, by rw [put, hd]⟩
  rw [Db.ids, hd]
  refine h.linked.imp id fun hlinked s hs => ?_
  obtain ⟨r, hr, rfl⟩ := List.mem_map.mp (hlinked s hs)
  exact List.mem_map_of_mem (mem_insertNew_of_mem hr)

theorem insert_rows : ∀ {as : List StoredAssertion} {db d : Db}, InsertableAll deps tenant now db as →
    d.assertions = db.assertions →
    executemany (INSERT_ASSERTION deps.uuid tenant)
        (as.map fun a => assertion_params a tenant (deps.embedding a.predicate a.object)) d =
      .ok { d with assertions := (as.foldl (put deps tenant now) db).assertions }
  | [], db, d, _, hd => by
      rw [List.foldl_nil, ← hd]
      rfl
  | a :: as, db, d, ⟨ha, has⟩, hd => by
      rw [List.map_cons, executemany, ha.insert now hd]
      exact insert_rows has rfl

theorem insert_citations : ∀ {rows : List ProvenanceRow} {d : Db},
    (∀ p ∈ rows, p.span_start ≤ p.span_end ∧ p.violated = none ∧ d.sees tenant p.assertion_id) →
    executemany (INSERT_PROVENANCE tenant) rows d =
      .ok { d with provenance := rows.foldl (fun t p => insertNew ProvenanceRow.id p t) d.provenance }
  | [], _, _ => rfl
  | p :: rows, d, h => by
      obtain ⟨hspan, hviolated, hsees⟩ := h p List.mem_cons_self
      rw [executemany, INSERT_PROVENANCE_ok.mpr ⟨hspan, hviolated, hsees, rfl⟩]
      exact insert_citations fun q hq => h q (List.mem_cons_of_mem _ hq)

theorem insert_events : ∀ {rows : List OutboxRow} {d : Db}, (∀ o ∈ rows, o.assertion_id ∈ d.ids) →
    executemany INSERT_OUTBOX rows d =
      .ok { d with outbox := rows.foldl (fun t o => insertNew OutboxRow.id o t) d.outbox }
  | [], _, _ => rfl
  | o :: rows, d, h => by
      rw [executemany, INSERT_OUTBOX_ok.mpr ⟨Or.inr (h o List.mem_cons_self), rfl⟩]
      exact insert_events fun q hq => h q (List.mem_cons_of_mem _ hq)

theorem sees_put {aid : AssertionId} (h : db.sees tenant aid) :
    (put deps tenant now db a).sees tenant aid := by
  obtain ⟨r, hr, hid, ht⟩ := h
  exact ⟨r, mem_insertNew_of_mem hr, hid, ht⟩

theorem Insertable.sees (h : Insertable deps tenant db a) :
    (put deps tenant now db a).sees tenant a.assertion_id := by
  by_cases hmem : a.assertion_id ∈ db.ids
  · obtain ⟨r, hr, hid⟩ := List.mem_map.mp hmem
    exact sees_put ⟨r, hr, hid, h.owned r hr hid⟩
  · exact ⟨_, mem_insertNew.mpr (Or.inr ⟨rfl, hmem⟩), rfl, rfl⟩

/-- Every assertion of a batch ends up as a row that the tenant sees. -/
theorem sees_all : ∀ {as : List StoredAssertion} {db : Db}, InsertableAll deps tenant now db as →
    (∀ aid, db.sees tenant aid → (as.foldl (put deps tenant now) db).sees tenant aid) ∧
      ∀ a ∈ as, (as.foldl (put deps tenant now) db).sees tenant a.assertion_id
  | [], _, _ => ⟨fun _ h => h, fun _ h => absurd h List.not_mem_nil⟩
  | a :: as, db, ⟨ha, has⟩ => by
      obtain ⟨hkeep, hall⟩ := sees_all has
      refine ⟨fun aid h => hkeep aid (sees_put h), fun b hb => ?_⟩
      rcases List.mem_cons.mp hb with rfl | hb
      · exact hkeep _ ha.sees
      · exact hall b hb

/-- The tables change independently of each other. -/
theorem foldl_put : ∀ {as : List StoredAssertion} {db : Db}, as.foldl (put deps tenant now) db =
    { assertions := (as.foldl (put deps tenant now) db).assertions
      provenance := (as.flatMap (provenance_params deps.uuid)).foldl
        (fun t p => insertNew ProvenanceRow.id p t) db.provenance
      outbox := (as.map fun a => outbox_params deps.uuid a tenant now).foldl
        (fun t o => insertNew OutboxRow.id o t) db.outbox
      audit := db.audit }
  | [], _ => rfl
  | a :: as, db => by
      rw [List.foldl_cons, foldl_put, List.flatMap_cons, List.foldl_append, List.map_cons, List.foldl_cons]
      rfl

/-- Where each assertion of a batch passes the statement, the batch does what they do one by one. -/
theorem upsert_put (hwf : Wf deps.uuid db) (h : InsertableAll deps tenant now db as) :
    GuardMem.upsert deps tenant now as db = .ok (as.foldl (put deps tenant now) db) := by
  by_cases has : as = []
  · subst has
    rfl
  have hprepared : prepare deps tenant now as = some
      { assertions := as.map fun a => assertion_params a tenant (deps.embedding a.predicate a.object)
        citations := as.flatMap (provenance_params deps.uuid)
        events := as.map fun a => outbox_params deps.uuid a tenant now } := if_neg has
  have hseen := (sees_all h).2
  have hwritten : write_in deps tenant
      { assertions := as.map fun a => assertion_params a tenant (deps.embedding a.predicate a.object)
        citations := as.flatMap (provenance_params deps.uuid)
        events := as.map fun a => outbox_params deps.uuid a tenant now } db =
      .ok (as.foldl (put deps tenant now) db) := by
    simp only [write_in, bind_ok]
    refine ⟨_, insert_rows h rfl, _, insert_citations (fun p hp => ?_), ?_⟩
    · obtain ⟨a, ha, hp⟩ := List.mem_flatMap.mp hp
      obtain ⟨c, -, rfl⟩ := List.mem_map.mp hp
      exact ⟨c.span_real.le, citation_params_violated _ _ _, hseen a ha⟩
    · refine (insert_events fun o ho => ?_).trans (congrArg Except.ok foldl_put.symm)
      obtain ⟨a, ha, rfl⟩ := List.mem_map.mp ho
      obtain ⟨r, hr, hid, -⟩ := hseen a ha
      exact List.mem_map.mpr ⟨r, hr, hid⟩
  have hcommits : ∀ r ∈ (as.foldl (put deps tenant now) db).assertions, unsourced db _ r = false :=
    (hwf.write_in hprepared hwritten).commits
  simp only [GuardMem.upsert, hprepared, bind_ok, Prod.exists, transaction_ok, Except.ok.injEq,
    Prod.mk.injEq]
  exact ⟨(), _, ⟨⟨_, hwritten, trivial, rfl⟩, hcommits⟩, rfl⟩

theorem column_ok {α : Type} {value : String} {o : Option α} {x : α} : column value o = .ok x ↔ o = some x := by
  cases o <;> simp [column]

/-- Rows that their columns keep are taken as they are. -/
theorem collect_column {α : Type} {value : String} {typed : α → Option α} {rows : List α}
    (h : ∀ r ∈ rows, typed r = some r) : collect (fun r => column value (typed r)) rows = .ok rows :=
  collect_ok.mpr (List.forall₂_same.mpr fun r hr => column_ok.mpr (h r hr))

theorem typed_keeps (h : ∀ a ∈ as, columns.Keeps deps tenant now a) : PreparedWrite.typed columns
    { assertions := as.map fun a => assertion_params a tenant (deps.embedding a.predicate a.object)
      citations := as.flatMap (provenance_params deps.uuid)
      events := as.map fun a => outbox_params deps.uuid a tenant now } = .ok
    { assertions := as.map fun a => assertion_params a tenant (deps.embedding a.predicate a.object)
      citations := as.flatMap (provenance_params deps.uuid)
      events := as.map fun a => outbox_params deps.uuid a tenant now } := by
  have hrows : ∀ r ∈ as.map (fun a => assertion_params a tenant (deps.embedding a.predicate a.object)),
      r.typed columns = some r := List.forall_mem_map.mpr fun a ha => (h a ha).row
  have hcitations : ∀ p ∈ as.flatMap (provenance_params deps.uuid), p.typed columns = some p := by
    intro p hp
    obtain ⟨a, ha, hp⟩ := List.mem_flatMap.mp hp
    exact (h a ha).citations p hp
  have hevents : ∀ o ∈ as.map (fun a => outbox_params deps.uuid a tenant now), o.typed columns = some o :=
    List.forall_mem_map.mpr fun a ha => (h a ha).event
  simp only [PreparedWrite.typed, collect_column hrows, collect_column hcitations, collect_column hevents]
  rfl

/-- Each row a batch adds refers to what is there. -/
theorem refers_put : ∀ {as : List StoredAssertion} {db : Db}, (∀ a ∈ as, columns.Keeps deps tenant now a) →
    ∀ r ∈ (as.foldl (put deps tenant now) db).assertions, r ∈ db.assertions ∨ columns.Refers r
  | [], _, _, _, hr => Or.inl hr
  | a :: as, db, h, r, hr => by
      obtain ⟨ha, has⟩ := List.forall_mem_cons.mp h
      refine (refers_put has r hr).elim (fun hr => ?_) Or.inr
      rcases mem_insertNew.mp hr with hr | ⟨rfl, -⟩
      · exact Or.inl hr
      · exact Or.inr ha.refers

/-- What the columns keep is written as it is. -/
theorem pg_upsert_put (hwf : Wf deps.uuid db) (hkeeps : ∀ a ∈ as, columns.Keeps deps tenant now a)
    (h : InsertableAll deps tenant now db as) :
    PgVectorStore.upsert columns deps tenant now as db = .ok (as.foldl (put deps tenant now) db) := by
  by_cases has : as = []
  · subst has
    rfl
  have hprepared : prepare deps tenant now as = some
      { assertions := as.map fun a => assertion_params a tenant (deps.embedding a.predicate a.object)
        citations := as.flatMap (provenance_params deps.uuid)
        events := as.map fun a => outbox_params deps.uuid a tenant now } := if_neg has
  have hput := upsert_put hwf h
  simp only [GuardMem.upsert, hprepared, bind_ok, Prod.exists, transaction_ok, Except.ok.injEq,
    Prod.mk.injEq] at hput
  obtain ⟨_, _, ⟨⟨_, hwritten, -, rfl⟩, hcommits⟩, rfl⟩ := hput
  simp only [PgVectorStore.upsert, hprepared, bind_ok, Prod.exists, transaction_ok, require_ok,
    Except.ok.injEq, Prod.mk.injEq]
  exact ⟨_, typed_keeps hkeeps, (), _, ⟨⟨_, hwritten, (), refers_put hkeeps, trivial, rfl⟩, hcommits⟩, rfl⟩

/-! ### Each operation keeps the rows mirrored -/

/-- The stores hold these rows, and raised alike. -/
abbrev holding (held : List Fields) (db : Db) : StorePair := ⟨⟨held⟩, db, true⟩

theorem ids_mirrored {rows : List AssertionRow} (h : List.Forall₂ (Mirror tenant db) held rows) :
    held.map Fields.assertion_id = rows.map AssertionRow.id := by
  rw [← List.forall₂_eq_eq_eq, List.forall₂_map_left_iff, List.forall₂_map_right_iff]
  refine h.imp fun f r hm => ?_
  rw [hm.columns]
  rfl

theorem StorePair.Mirrored.insertable (h : (holding held db).Mirrored deps tenant)
    (ha : Unwritten deps tenant held a ∨ a.fields ∈ held) : Insertable deps tenant db a := by
  have hids : held.map Fields.assertion_id = db.ids := ids_mirrored h.rows
  have howned : ∀ r ∈ db.assertions, r.tenant_id = tenant := by
    intro r hr
    obtain ⟨f, -, hm⟩ := forall₂_of_mem_right h.rows hr
    exact hm.owned
  rcases ha with hnew | hheld
  · refine ⟨hnew.valid, fun hself => hnew.unused (hnew.linked _ hself), Or.inr fun s hs => ?_,
      fun r hr _ => howned r hr⟩
    exact hids ▸ hnew.linked s hs
  · obtain ⟨r, hr, hm⟩ := forall₂_of_mem_right h.rows.flip hheld
    have hid : a.assertion_id = r.id := congrArg Fields.assertion_id hm.columns
    have hsuperseded : a.superseded_by = r.superseded_by := congrArg Fields.superseded_by hm.columns
    refine ⟨hid ▸ h.wf.ids_valid r hr, ?_, Or.inl (hid ▸ mem_ids hr), fun r hr _ => howned r hr⟩
    rw [hid, hsuperseded]
    exact (AssertionRow.violated_eq_none.mp (h.wf.checked r hr)).2.2.2.2

variable (now) in
/-- Writing again what is held changes neither store. -/
theorem StorePair.Mirrored.put_held (h : (holding held db).Mirrored deps tenant) (ha : a.fields ∈ held) :
    merge Fields.assertion_id a.fields held = held ∧ put deps tenant now db a = db := by
  have hids : held.map Fields.assertion_id = db.ids := ids_mirrored h.rows
  obtain ⟨r, hr, hm⟩ := forall₂_of_mem_right h.rows.flip ha
  have hid : a.assertion_id = r.id := congrArg Fields.assertion_id hm.columns
  constructor
  · have hnodup : (held.map Fields.assertion_id).Nodup := hids ▸ h.wf.ids_nodup
    rw [merge, insertNew_old (List.mem_map_of_mem ha)]
    refine updateWhere_id fun f hf hsame => ?_
    exact (eq_of_key Fields.assertion_id hnodup hf ha (of_decide_eq_true hsame)).symm
  · -- each of its citations is in the table already
    have hcited : ∀ p ∈ provenance_params deps.uuid a, p.id ∈ db.provenance.map ProvenanceRow.id := by
      intro p hp
      obtain ⟨c, hc, rfl⟩ := List.mem_map.mp hp
      obtain ⟨q, hq, hqc⟩ := (mem_collect hm.cited).mp hc
      rw [SELECT_PROVENANCE, List.mem_insertionSort, List.mem_filter] at hq
      obtain ⟨-, c', hc'⟩ := h.wf.cited q hq.1
      rw [hc', provenance_from_row_params] at hqc
      obtain rfl := Except.ok.inj hqc
      have hrow : q.assertion_id = r.id := by simpa using hq.2
      have haid : q.assertion_id = a.assertion_id := hrow.trans hid.symm
      rw [haid] at hc'
      exact hc' ▸ List.mem_map_of_mem hq.1
    have hevent : (outbox_params deps.uuid a tenant now).id ∈ db.outbox.map OutboxRow.id := by
      obtain ⟨o, ho, hoid⟩ := h.wf.queued r hr
      have hname : o.id = outbox_id deps.uuid a.assertion_id := by rw [(h.wf.events o ho).1, hoid, hid]
      exact List.mem_map.mpr ⟨o, ho, hname⟩
    have hrow : (assertion_params a tenant (deps.embedding a.predicate a.object)).id ∈
        db.assertions.map AssertionRow.id := by
      rw [show (assertion_params a tenant (deps.embedding a.predicate a.object)).id = r.id from hid]
      exact mem_ids hr
    rw [put, insertNew_old hrow, foldl_insertNew_old hcited, insertNew_old hevent]

variable (now) in
/-- The citations of a new assertion are new, and read back in their order. -/
theorem Unwritten.citations (hwf : Wf deps.uuid db) (ha : Unwritten deps tenant held a)
    (hids : held.map Fields.assertion_id = db.ids) :
    (put deps tenant now db a).provenance = db.provenance ++ provenance_params deps.uuid a ∧
      fetch_citations (put deps tenant now db a) a.assertion_id = .ok a.provenance := by
  have hunused : a.assertion_id ∉ db.ids := hids ▸ ha.unused
  have hnew : ∀ p ∈ provenance_params deps.uuid a, p.id ∉ db.provenance.map ProvenanceRow.id := by
    intro p hp hmem
    obtain ⟨c, -, rfl⟩ := List.mem_map.mp hp
    obtain ⟨q, hq, hqid⟩ := List.mem_map.mp hmem
    obtain ⟨haid, c', hc'⟩ := hwf.cited q hq
    obtain ⟨r, hr, hrid⟩ := List.mem_map.mp haid
    rw [hc'] at hqid
    have hsame : q.assertion_id = a.assertion_id := citation_id_assertion deps.uuid
      (hrid ▸ hwf.ids_valid r hr) ha.valid hqid
    exact hunused (hsame ▸ haid)
  have hnodup : ((provenance_params deps.uuid a).map ProvenanceRow.id).Nodup := by
    rw [provenance_params, List.map_map]
    exact ha.cited
  have hprovenance : (put deps tenant now db a).provenance =
      db.provenance ++ provenance_params deps.uuid a := foldl_insertNew_new hnodup hnew
  refine ⟨hprovenance, ?_⟩
  have hold : (db.provenance.filter fun p => p.assertion_id == a.assertion_id) = [] := by
    refine List.filter_eq_nil_iff.mpr fun p hp hsame => hunused ?_
    exact (by simpa using hsame : p.assertion_id = a.assertion_id) ▸ (hwf.cited p hp).1
  have hown : ((provenance_params deps.uuid a).filter fun p => p.assertion_id == a.assertion_id) =
      provenance_params deps.uuid a := by
    refine List.filter_eq_self.mpr fun p hp => ?_
    obtain ⟨c, -, rfl⟩ := List.mem_map.mp hp
    exact beq_self_eq_true _
  have hsorted : (provenance_params deps.uuid a).Pairwise fun p q => p.captured_at ≤ q.captured_at :=
    List.pairwise_map.mpr (ha.captured.imp le_of_lt)
  rw [fetch_citations, SELECT_PROVENANCE, hprovenance, List.filter_append, hold, hown, List.nil_append,
    hsorted.insertionSort_eq, provenance_params]
  refine collect_ok.mpr (List.forall₂_map_left_iff.mpr (List.forall₂_same.mpr fun c _ => ?_))
  exact provenance_from_row_params _ _

/-- A new assertion becomes a row of each. -/
theorem StorePair.Mirrored.put_unwritten (h : (holding held db).Mirrored deps tenant)
    (ha : Unwritten deps tenant held a) :
    (holding (merge Fields.assertion_id a.fields held) (put deps tenant now db a)).Mirrored deps tenant := by
  have hids : held.map Fields.assertion_id = db.ids := ids_mirrored h.rows
  have hunused : a.assertion_id ∉ db.ids := hids ▸ ha.unused
  obtain ⟨hprovenance, hcited⟩ := ha.citations now h.wf hids
  have hrows : (put deps tenant now db a).assertions =
      db.assertions ++ [assertion_params a tenant (deps.embedding a.predicate a.object)] :=
    insertNew_new hunused
  have hinsertable : InsertableAll deps tenant now db [a] := ⟨h.insertable (Or.inl ha), trivial⟩
  have hwf : Wf deps.uuid (put deps tenant now db a) :=
    Wf.upsert (upsert_put h.wf hinsertable) h.wf
  refine ⟨hwf, ?_, fun r hr hto => ?_, ?_, rfl⟩
  · change List.Forall₂ _ (merge Fields.assertion_id a.fields held) (put deps tenant now db a).assertions
    rw [merge_new ha.unused, hrows]
    refine List.rel_append ?_ (List.Forall₂.cons ?_ List.Forall₂.nil)
    · refine forall₂_imp_mem h.rows fun f r hr hm => ⟨hm.owned, hm.embedded, hm.object, ?_, hm.columns⟩
      have hnone : ((provenance_params deps.uuid a).filter fun p => p.assertion_id == r.id) = [] := by
        refine List.filter_eq_nil_iff.mpr fun p hp hsame => hunused ?_
        obtain ⟨c, -, rfl⟩ := List.mem_map.mp hp
        have hrid : a.assertion_id = r.id := beq_iff_eq.mp hsame
        exact hrid ▸ mem_ids hr
      rw [fetch_citations, SELECT_PROVENANCE, hprovenance, List.filter_append, hnone, List.append_nil]
      exact hm.cited
    · refine ⟨rfl, rfl, ObjectValue.ofJson_toJson _, hcited, ?_⟩
      simp [StoredAssertion.fields, AssertionRow.fields, assertion_params, ha.owned, ha.invisible]
  · rcases List.mem_append.mp (hrows ▸ hr) with hr | hr
    · exact h.shown r hr hto
    · obtain rfl := List.mem_singleton.mp hr
      exact absurd ha.open_ended hto
  · have hunseen : a.fields.shown = false := by
      simp [Fields.shown, StoredAssertion.fields, ha.invisible]
    change ((merge Fields.assertion_id a.fields held).filter Fields.shown).length ≤ EF_SEARCH
    rw [merge_new ha.unused, List.filter_append, List.filter_cons_of_neg (by simp [hunseen]), List.filter_nil,
      List.append_nil]
    exact h.room

variable (now) in
/-- The run lemma for a batch. -/
theorem StorePair.Mirrored.batch : ∀ {as : List StoredAssertion} {held : List Fields} {db : Db},
    (holding held db).Mirrored deps tenant → FreshOrHeld deps tenant held as →
    InsertableAll deps tenant now db as ∧
      (holding (as.foldl (fun held a => merge Fields.assertion_id a.fields held) held)
        (as.foldl (put deps tenant now) db)).Mirrored deps tenant
  | [], _, _, h, _ => ⟨trivial, h⟩
  | a :: as, held, db, h, ⟨ha, has⟩ => by
      have hnext : (holding (merge Fields.assertion_id a.fields held) (put deps tenant now db a)).Mirrored
          deps tenant := by
        rcases ha with hnew | hheld
        · exact h.put_unwritten hnew
        · obtain ⟨hmerge, hput⟩ := h.put_held now hheld
          rw [hmerge, hput]
          exact h
      obtain ⟨hinsertable, hlast⟩ := hnext.batch has
      exact ⟨⟨h.insertable ha, hinsertable⟩, hlast⟩

/-- An update of a row that leaves its id, its value and its embedding. -/
theorem Mirror.update (h : Mirror tenant db f r) (hprovenance : db'.provenance = db.provenance)
    {r' : AssertionRow} (hid : r'.id = r.id) (ht : r'.tenant_id = r.tenant_id)
    (he : r'.embedding = r.embedding) (ho : r'.object_json = r.object_json) :
    Mirror tenant db' (r'.fields f.object f.provenance) r' := by
  refine ⟨ht.trans h.owned, he ▸ h.embedded, ho ▸ h.object, ?_, rfl⟩
  rw [fetch_citations, SELECT_PROVENANCE, hid, hprovenance]
  exact h.cited

/-- The same update of both tables. -/
theorem rows_updated {p : Fields → Bool} {q : AssertionRow → Bool} {u : Fields → Fields}
    {v : AssertionRow → AssertionRow} {rows : List AssertionRow}
    (h : List.Forall₂ (Mirror tenant db) held rows) (hprovenance : db'.provenance = db.provenance)
    (hpq : ∀ f r, r ∈ rows → Mirror tenant db f r → p f = q r)
    (huv : ∀ f r, Mirror tenant db f r → u f = (v r).fields f.object f.provenance)
    (hkept : ∀ r, (v r).id = r.id ∧ (v r).tenant_id = r.tenant_id ∧ (v r).embedding = r.embedding ∧
      (v r).object_json = r.object_json) :
    List.Forall₂ (Mirror tenant db') (updateWhere p u held) (updateWhere q v rows) := by
  rw [updateWhere, updateWhere, List.forall₂_map_left_iff, List.forall₂_map_right_iff]
  refine forall₂_imp_mem h fun f r hr hm => ?_
  rw [hpq f r hr hm]
  cases q r with
  | true =>
      obtain ⟨hid, ht, he, ho⟩ := hkept r
      simp only [if_true]
      rw [huv f r hm]
      exact hm.update hprovenance hid ht he ho
  | false => exact ⟨hm.owned, hm.embedded, hm.object, by
      rw [fetch_citations, SELECT_PROVENANCE, hprovenance]; exact hm.cited, hm.columns⟩

theorem StorePair.Mirrored.reveal (h : s.Mirrored deps tenant) {id : AssertionId}
    (hroom : (s.fake.assertions.filter fun f =>
      f.valid_to.isNone && (f.visible || f.assertion_id == id)).length ≤ EF_SEARCH) :
    (⟨s.fake.reveal id, REVEAL_ASSERTION tenant id s.db, true⟩ : StorePair).Mirrored deps tenant := by
  refine ⟨h.wf.reveal, rows_updated h.rows rfl (fun f r _ hm => ?_) (fun f r hm => ?_)
    fun r => ⟨rfl, rfl, rfl, rfl⟩, fun r hr hto => ?_, ?_, rfl⟩
  · rw [show f.assertion_id = r.id from congrArg Fields.assertion_id hm.columns]
    simp [hm.owned]
  · conv_lhs => rw [hm.columns]
    rfl
  · obtain ⟨r₀, hr₀, rfl⟩ := mem_updateWhere.mp hr
    rcases ite_eq_or_eq (r₀.id == id && r₀.tenant_id == tenant) { r₀ with visible := true } r₀ with hu | hu <;>
      rw [hu] at hto ⊢
    · exact ⟨rfl, (h.shown r₀ hr₀ hto).2⟩
    · exact h.shown r₀ hr₀ hto
  · have hshown : ∀ f : Fields, (if (f.assertion_id == id) = true then { f with visible := true } else f).shown =
        (f.valid_to.isNone && (f.visible || f.assertion_id == id)) := by
      intro f
      cases hid : f.assertion_id == id <;> simp [Fields.shown]
    rw [FakeVectorStore.reveal, updateWhere, List.filter_map, List.length_map]
    exact (congrArg List.length (List.filter_congr fun f _ => hshown f)).trans_le hroom

/-- With its citations in place, a supersession commits. -/
theorem pg_supersede_ok (hwf : Wf deps.uuid db) {old new : AssertionId} {t : Time} :
    PgVectorStore.supersede columns tenant old new t db = .ok db' ↔ ∃ old_id new_id,
      columns.uuid old = some old_id ∧ columns.uuid new = some new_id ∧
        supersede_in tenant old_id new_id t db = .ok db' := by
  simp only [PgVectorStore.supersede, supersede_in, bind_ok, Prod.exists, transaction_ok, column_ok,
    require_ok, Except.ok.injEq, Prod.mk.injEq]
  constructor
  · rintro ⟨new_id, hnew, old_id, hold, _, _, ⟨⟨n, d, hd, _, hne, -, rfl⟩, -⟩, rfl⟩
    exact ⟨old_id, new_id, hold, hnew, n, d, hd, (), hne, rfl⟩
  · rintro ⟨old_id, new_id, hold, hnew, n, d, hd, _, hne, rfl⟩
    have hin : supersede_in tenant old_id new_id t db = .ok d := by
      simp only [supersede_in, bind_ok, Prod.exists, require_ok, Except.ok.injEq]
      exact ⟨n, d, hd, (), hne, rfl⟩
    exact ⟨new_id, hnew, old_id, hold, (), d, ⟨⟨n, d, hd, (), hne, trivial, rfl⟩,
      (hwf.supersede_in hin).commits⟩, rfl⟩

/-- Both refuse where no live row is under the id. -/
theorem supersede_refused (h : s.Mirrored deps tenant) {old : AssertionId} (new : AssertionId) (t : Time)
    (hnone : ∀ f ∈ s.fake.assertions, f.valid_to = none → f.assertion_id ≠ old ∧
      columns.uuid old ≠ some f.assertion_id) :
    (s.fake.supersede old new t).toOption = none ∧
      (PgVectorStore.supersede columns tenant old new t s.db).toOption = none := by
  constructor
  · unfold FakeVectorStore.supersede
    split
    · next f hfind =>
        have hid : f.assertion_id = old := by simpa using List.find?_some hfind
        have hto : f.valid_to ≠ none := fun hto => (hnone f (List.mem_of_find?_eq_some hfind) hto).1 hid
        rw [if_pos (Option.isSome_iff_ne_none.mpr hto)]
        rfl
    · rfl
  · cases hok : PgVectorStore.supersede columns tenant old new t s.db with
    | error e => rfl
    | ok db' =>
        obtain ⟨old_id, new_id, hold, -, hin⟩ := (pg_supersede_ok h.wf).mp hok
        obtain ⟨⟨r, hr, hs⟩, -⟩ := supersede_in_ok.mp hin
        obtain ⟨hid, hto, -⟩ := supersedes_iff.mp hs
        obtain ⟨f, hf, hm⟩ := forall₂_of_mem_right h.rows hr
        have hfid : f.assertion_id = r.id := congrArg Fields.assertion_id hm.columns
        have hfto : f.valid_to = r.valid_to := congrArg Fields.valid_to hm.columns
        exact absurd (hold.trans (congrArg some (hid.symm.trans hfid.symm))) (hnone f hf (hfto.trans hto)).2

/-- The fake retires the live row under the id. -/
theorem fake_supersede_live {fake : FakeVectorStore} (hids : (fake.assertions.map Fields.assertion_id).Nodup)
    {old new : AssertionId} {t : Time} (hf : f ∈ fake.assertions) (hid : f.assertion_id = old)
    (hto : f.valid_to = none) : fake.supersede old new t = .ok ⟨updateWhere (fun f => f.assertion_id == old)
      (fun f => { f with valid_to := some t, superseded_by := some new }) fake.assertions⟩ := by
  have hsome : (fake.assertions.find? fun f => f.assertion_id == old).isSome :=
    List.find?_isSome.mpr ⟨f, hf, by simpa using hid⟩
  obtain ⟨g, hg⟩ := Option.isSome_iff_exists.mp hsome
  have hgid : g.assertion_id = old := by simpa using List.find?_some hg
  obtain rfl : g = f := eq_of_key Fields.assertion_id hids (List.mem_of_find?_eq_some hg) hf
    (hgid.trans hid.symm)
  rw [FakeVectorStore.supersede, hg]
  simp [hto]

/-- The statement retires the row that mirrors one that may be retired. -/
theorem supersede_in_mirror (h : s.Mirrored deps tenant) {old new : AssertionId} {t : Time}
    (hrow : r ∈ s.db.assertions) (hm : Mirror tenant s.db f r) (hid : f.assertion_id = old)
    (hto : f.valid_to = none) (hr : Retirable s.fake.assertions f new t) :
    supersede_in tenant old new t s.db = .ok { s.db with
      assertions := updateWhere (supersedes tenant old) (AssertionRow.retire t new) s.db.assertions } := by
  have hids : s.fake.assertions.map Fields.assertion_id = s.db.ids := ids_mirrored h.rows
  have hrid : f.assertion_id = r.id := congrArg Fields.assertion_id hm.columns
  have hrto : f.valid_to = r.valid_to := congrArg Fields.valid_to hm.columns
  refine supersede_in_ok.mpr ⟨⟨r, hrow, supersedes_iff.mpr ⟨hrid.symm.trans hid, hrto.symm.trans hto,
    hm.owned⟩⟩, fun q hq hs => ?_, hids ▸ hr.stored, rfl⟩
  obtain rfl := h.wf.eq_of_id hq hrow ((supersedes_iff.mp hs).1.trans (hid.symm.trans hrid))
  obtain ⟨hc, hrisk, hn, -, -⟩ := AssertionRow.violated_eq_none.mp (h.wf.checked q hq)
  refine AssertionRow.violated_eq_none.mpr ⟨hc, hrisk, hn, fun u hu => ?_, fun hself => ?_⟩
  · obtain rfl : t = u := by simpa [AssertionRow.retire] using hu
    have hfrom : f.valid_from = q.valid_from := congrArg Fields.valid_from hm.columns
    exact hfrom ▸ hr.begun
  · have hself : new = q.id := by simpa [AssertionRow.retire] using hself
    exact hr.other (hself.trans hrid.symm)

/-- Both retire a live row that may be retired. -/
theorem supersede_taken (h : s.Mirrored deps tenant) {old new : AssertionId} {t : Time} {f : Fields}
    (hf : f ∈ s.fake.assertions) (hid : f.assertion_id = old) (hto : f.valid_to = none)
    (hold : columns.uuid old = some old) (hnew : columns.uuid new = some new)
    (hr : Retirable s.fake.assertions f new t) :
    ∃ fake db, s.fake.supersede old new t = .ok fake ∧
      PgVectorStore.supersede columns tenant old new t s.db = .ok db ∧
      (⟨fake, db, true⟩ : StorePair).Mirrored deps tenant := by
  have hids : (s.fake.assertions.map Fields.assertion_id).Nodup := ids_mirrored h.rows ▸ h.wf.ids_nodup
  obtain ⟨r, hrow, hm⟩ := forall₂_of_mem_right h.rows.flip hf
  have hrid : f.assertion_id = r.id := congrArg Fields.assertion_id hm.columns
  have hrto : f.valid_to = r.valid_to := congrArg Fields.valid_to hm.columns
  have hfake := @fake_supersede_live f s.fake hids old new t hf hid hto
  have hdb := supersede_in_mirror h hrow hm hid hto hr
  refine ⟨_, _, hfake, (pg_supersede_ok h.wf).mpr ⟨old, new, hold, hnew, hdb⟩, h.wf.supersede_in hdb, ?_,
    fun q hq hqto => ?_, ?_, rfl⟩
  · -- under the id there is one row, and it is live
    have hlive : ∀ g q, q ∈ s.db.assertions → Mirror tenant s.db g q →
        (g.assertion_id == old) = supersedes tenant old q := by
      intro g q hq hmq
      have hgid : g.assertion_id = q.id := congrArg Fields.assertion_id hmq.columns
      rw [Bool.eq_iff_iff, beq_iff_eq, supersedes_iff, hgid]
      refine ⟨fun hqid => ⟨hqid, ?_, hmq.owned⟩, fun h => h.1⟩
      obtain rfl := h.wf.eq_of_id hq hrow (hqid.trans (hid.symm.trans hrid))
      exact hrto.symm.trans hto
    refine rows_updated h.rows rfl hlive (fun g q hmq => ?_) fun q => ⟨rfl, rfl, rfl, rfl⟩
    conv_lhs => rw [hmq.columns]
    rfl
  · obtain ⟨q₀, hq₀, rfl⟩ := mem_updateWhere.mp hq
    by_cases hs : supersedes tenant old q₀ = true
    · rw [if_pos hs] at hqto ⊢
      obtain rfl := h.wf.eq_of_id hq₀ hrow ((supersedes_iff.mp hs).1.trans (hid.symm.trans hrid))
      have hvisible : f.visible = q₀.visible := congrArg Fields.visible hm.columns
      have hretracted : f.retracted_at = q₀.retracted_at := congrArg Fields.retracted_at hm.columns
      exact ⟨hvisible.symm.trans hr.visible, hretracted.symm.trans hr.unretracted⟩
    · rw [if_neg hs] at hqto ⊢
      exact h.shown q₀ hq₀ hqto
  · have hhides : ∀ g : Fields, (if (g.assertion_id == old) = true then
        { g with valid_to := some t, superseded_by := some new } else g).shown = true → g.shown = true := by
      intro g hg
      split at hg
      · cases hg
      · exact hg
    change ((updateWhere _ _ s.fake.assertions).filter Fields.shown).length ≤ EF_SEARCH
    rw [updateWhere, List.filter_map, List.length_map]
    exact (List.monotone_filter_right _ hhides).length_le.trans h.room

theorem StorePair.Mirrored.supersede (h : s.Mirrored deps tenant) {old new : AssertionId} {t : Time}
    (hplain : s.Plain columns deps tenant (.supersede old new t)) :
    (s.settle (s.fake.supersede old new t) (PgVectorStore.supersede columns tenant old new t s.db)).Mirrored
      deps tenant := by
  by_cases hlive : ∃ f ∈ s.fake.assertions, f.valid_to = none ∧
      (f.assertion_id = old ∨ columns.uuid old = some f.assertion_id)
  · obtain ⟨f, hf, hto, hnamed⟩ := hlive
    obtain ⟨hid, hold, hnew, hr⟩ := hplain f hf hto hnamed
    obtain ⟨fake, db, hfake, hdb, hnext⟩ := supersede_taken h hf hid hto hold hnew hr
    rw [hfake, hdb]
    exact hnext
  · have hnone : ∀ f ∈ s.fake.assertions, f.valid_to = none → f.assertion_id ≠ old ∧
        columns.uuid old ≠ some f.assertion_id := fun f hf hto =>
      ⟨fun hid => hlive ⟨f, hf, hto, Or.inl hid⟩, fun hid => hlive ⟨f, hf, hto, Or.inr hid⟩⟩
    obtain ⟨hfake, hdb⟩ := supersede_refused h new t hnone
    rw [StorePair.settle, hfake, hdb]
    exact ⟨h.wf, h.rows, h.shown, h.room, rfl⟩

/-- The step lemma: a plain operation keeps the stores alike. -/
theorem StorePair.Mirrored.step (h : s.Mirrored deps tenant) {op : StoreOp}
    (hplain : s.Plain columns deps tenant op) (hs : StorePair.step columns deps tenant s op = some s') :
    s'.Mirrored deps tenant := by
  cases op with
  | upsert now as =>
      obtain rfl := Option.some.inj hs
      have hheld : (holding s.fake.assertions s.db).Mirrored deps tenant :=
        ⟨h.wf, h.rows, h.shown, h.room, rfl⟩
      obtain ⟨hinsertable, hlast⟩ := hheld.batch now hplain.2
      rw [pg_upsert_put h.wf hplain.1 hinsertable]
      exact hlast
  | supersede old new t =>
      obtain rfl := Option.some.inj hs
      exact h.supersede hplain
  | reveal id =>
      obtain rfl := Option.some.inj hs
      rw [PgVectorStore.reveal, column_ok.mpr hplain.1]
      exact h.reveal hplain.2

theorem StorePair.Mirrored.empty : StorePair.empty.Mirrored deps tenant :=
  ⟨Wf.empty, .nil, fun _ hr => absurd hr List.not_mem_nil, Nat.zero_le _, rfl⟩

namespace Clinical

/-- The clinic and its patient are there, and every text and value is read as it is. -/
def clinic_columns : Columns := ⟨some, some, ["clinic"], ["p1"]⟩

/-- A language with numbers that REAL keeps. -/
def kept_language (id : AssertionId) (value : String) (start : Time) : StoredAssertion :=
  { stored_language id value start with risk := percent 25 }

/-- French is written, shown and superseded by German. -/
def superseded_language : List StoreOp :=
  [.upsert 20 [kept_language "a" "French" 10, kept_language "b" "German" 30], .reveal "a",
    .supersede "a" "b" 30]

end Clinical

end GuardMem
