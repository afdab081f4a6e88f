import GuardMem.Lib.FloatFormat
import GuardMem.Lib.Ranking
import GuardMem.Memory.Applier
import GuardMem.Pipeline.FloatGate
import GuardMem.Pipeline.NoiseRules

/-! `rowmap.py` down to the types of the columns: what UUID, TEXT, REAL, JSONB, INT4RANGE and TIMESTAMPTZ
    make of the values an assertion is written with.

    The values are Python's: every float there is, and datetimes with or without an offset. CORRECT: where
    the columns take an assertion, the rows rebuild one, with its numbers rounded to REAL, its datetimes
    read in UTC and its citations in some order of `captured_at` (`read_back_iff`); where they keep what
    they take, the rows are those over exact columns (`assertion_row_stands`). -/

namespace GuardMem.TypedRows

open Lib Lib.Json Lib.Table Audit

/-! ### What is written -/

/-- Where a claim came from. -/
structure Provenance where
  source_hash : String
  source_span : ℕ × ℕ
  source_tier : SourceTier
  verbatim : String
  alignment : UnitFloat
  captured_at : Timestamp
  verbatim_short : verbatim.length ≤ 2000
  span_real : source_span.1 < source_span.2

/-- One proposed fact, as far as an assertion is made of it. -/
structure MemoryCandidate where
  candidate_id : CandidateId
  tenant_id : TenantId
  «namespace» : Namespace
  predicate : String
  object : PyObject
  valid_from : Option Timestamp := none
  provenance : Provenance
  trace_id : TraceId

/-- A candidate and its verdict. -/
structure GovernedCandidate where
  candidate : MemoryCandidate
  subject_id : EntityId
  record : DecisionRecord

/-- A durable fact. -/
structure StoredAssertion where
  assertion_id : AssertionId
  tenant_id : TenantId
  «namespace» : Namespace
  subject_id : EntityId
  predicate : String
  object : PyObject
  confidence : UnitFloat
  risk : UnitFloat
  valid_from : Timestamp
  valid_to : Option Timestamp := none
  recorded_at : Timestamp
  retracted_at : Option Timestamp := none
  superseded_by : Option AssertionId := none
  provenance : List Provenance
  corroboration_count : ℕ := 1
  trace_id : TraceId
  visible : Bool := false
  sourced : provenance ≠ []
  corroborated : 1 ≤ corroboration_count
  interval_coherent : ∀ t ∈ valid_to, t.aware = valid_from.aware ∧ valid_from.instant ≤ t.instant

theorem one_source : 1 ≤ 1 := le_refl 1

theorem open_ended (t : Timestamp) :
    ∀ u ∈ (none : Option Timestamp), u.aware = t.aware ∧ t.instant ≤ u.instant := by simp

/-- The assertion an approved candidate becomes, at `recorded_at` in UTC. -/
def fresh (uuid : Uuid5) (recorded_at : Time) (g : GovernedCandidate) : StoredAssertion where
  assertion_id := uuid.of ("guardmem/assertion/" ++ g.candidate.trace_id ++ "/" ++ g.candidate.candidate_id)
  tenant_id := g.candidate.tenant_id
  «namespace» := g.candidate.namespace
  subject_id := g.subject_id
  predicate := g.candidate.predicate
  object := g.candidate.object
  confidence := g.record.confidence.confidence
  risk := g.record.risk.risk
  valid_from := g.candidate.valid_from.getD g.candidate.provenance.captured_at
  recorded_at := ⟨recorded_at, true⟩
  provenance := [g.candidate.provenance]
  trace_id := g.candidate.trace_id
  sourced := List.cons_ne_nil _ _
  corroborated := one_source
  interval_coherent := open_ended _

/-- The same fact under other citations. -/
def StoredAssertion.citing (a : StoredAssertion) (first : Provenance) (rest : List Provenance) :
    StoredAssertion :=
  { a with provenance := first :: rest, sourced := List.cons_ne_nil _ _ }

/-- The first fifteen columns of `assertion`, over its objects and its datetimes. -/
structure AssertionParams (Object Date : Type) where
  id : AssertionId
  tenant_id : TenantId
  «namespace» : Namespace
  subject_id : EntityId
  predicate : String
  object_json : Object
  confidence : ℚ
  risk : ℚ
  valid_from : Date
  valid_to : Option Date
  recorded_at : Date
  retracted_at : Option Date
  superseded_by : Option AssertionId
  corroboration_count : ℕ
  trace_id : TraceId

/-- A row of `provenance`, over its datetimes. -/
structure ProvenanceParams (Date : Type) where
  id : String
  assertion_id : AssertionId
  source_hash : String
  span_start : ℕ
  span_end : ℕ
  source_tier : String
  verbatim : String
  alignment : ℚ
  captured_at : Date

/-- Flatten one assertion into the INSERT's positional parameters; the store's tenant overrides its own. -/
def assertion_params (a : StoredAssertion) (tenant : TenantId) : AssertionParams PyObject Timestamp where
  id := a.assertion_id
  tenant_id := tenant
  «namespace» := a.namespace
  subject_id := a.subject_id
  predicate := a.predicate
  object_json := a.object
  confidence := a.confidence.1
  risk := a.risk.1
  valid_from := a.valid_from
  valid_to := a.valid_to
  recorded_at := a.recorded_at
  retracted_at := a.retracted_at
  superseded_by := a.superseded_by
  corroboration_count := a.corroboration_count
  trace_id := a.trace_id

/-- The id of one citation of an assertion. -/
def citation_id (uuid : Uuid5) (aid : AssertionId) (citation : Provenance) : String :=
  uuid.of (aid ++ "/" ++ citation.source_hash ++ "/" ++ toString citation.source_span.1 ++ "-" ++
    toString citation.source_span.2)

def citation_params (uuid : Uuid5) (aid : AssertionId) (citation : Provenance) :
    ProvenanceParams Timestamp where
  id := citation_id uuid aid citation
  assertion_id := aid
  source_hash := citation.source_hash
  span_start := citation.source_span.1
  span_end := citation.source_span.2
  source_tier := citation.source_tier.value
  verbatim := citation.verbatim
  alignment := citation.alignment.1
  captured_at := citation.captured_at

/-- Flatten one assertion's citations, with ids derived from their content. -/
def provenance_params (uuid : Uuid5) (a : StoredAssertion) : List (ProvenanceParams Timestamp) :=
  a.provenance.map (citation_params uuid a.assertion_id)

/-! ### The columns -/

/-- UUID and TIMESTAMPTZ, as the driver fills and reads them: `none` is an error. A derived id is in
    canonical form already, and a datetime with an offset is the instant it was; one without is taken for
    some instant too, and what is read has an offset. -/
structure Driver where
  uuid : Uuid5
  cast : String → Option String
  cast_of : ∀ name, cast (uuid.of name) = some (uuid.of name)
  timestamptz : Timestamp → Time
  timestamptz_aware : ∀ t, t.aware = true → timestamptz t = t.instant

/-- No character is NUL, which neither TEXT nor a JSONB string can hold. -/
def NulFree (s : String) : Prop := Char.ofNat 0 ∉ s.toList

instance (s : String) : Decidable (NulFree s) := inferInstanceAs (Decidable (_ ∉ _))

def text (s : String) : Option String := if NulFree s then some s else none

@[simp] theorem text_eq_some {s t : String} : text s = some t ↔ NulFree s ∧ s = t := by
  simp [text]

/-- REAL: the nearest IEEE binary32, of 24 bits. -/
def real (q : ℚ) : ℚ := FloatFormat.round 24 (-149) q

/-- INTEGER and the bounds of INT4RANGE. -/
def int4 (n : ℕ) : Option ℕ := if n < 2 ^ 31 then some n else none

@[simp] theorem int4_eq_some {n m : ℕ} : int4 n = some m ↔ n < 2 ^ 31 ∧ n = m := by
  simp [int4]

/-- The keys and the texts of a value. -/
def strings (v : Value) : List String :=
  v.keys ++ v.scalars.filterMap fun s => match s with
    | .str s => some s
    | _ => none

/-- A JSONB value: a scalar or an object. -/
inductive ObjectJson where
  | scalar (s : JsonbScalar)
  | object (j : Jsonb)

/-- JSONB, of `json.dumps(object)`. -/
def jsonb (object : PyObject) : Option ObjectJson :=
  if GuardMem.Storable object.value ∧ ∀ s ∈ strings object.value, NulFree s then
    match object with
    | .str s => some (.scalar (to_jsonb (.str s)))
    | .float x => some (.scalar (to_jsonb (.float x)))
    | .bool b => some (.scalar (to_jsonb (.bool b)))
    | .dict kvs => some (.object (dumps_jsonb kvs))
  else none

/-- `json.loads(object_json)` as an `ObjectValue`: an integer is read as a float, and there is no null. -/
def object_from : ObjectJson → Option PyObject
  | .object j => some (.dict (loads_jsonb j))
  | .scalar s =>
      match loads_scalar s with
      | .str s => some (.str s)
      | .float x => some (.float x)
      | .bool b => some (.bool b)
      | .int i => (Binary64.nearest (i < 0) |(i : ℚ)|).map fun x => .float (.finite x)
      | .null => none
      | .other _ => none

/-! ### Writing and reading -/

/-- A row of `assertion`, its embedding apart. -/
structure AssertionRow extends AssertionParams ObjectJson Time where
  visible : Bool

/-- The CHECKs of `assertion`. -/
def AssertionRow.Checked (r : AssertionRow) : Prop :=
  (0 ≤ r.confidence ∧ r.confidence ≤ 1) ∧ (0 ≤ r.risk ∧ r.risk ≤ 1) ∧ 1 ≤ r.corroboration_count ∧
    (∀ t ∈ r.valid_to, r.valid_from ≤ t) ∧ r.superseded_by ≠ some r.id

instance (r : AssertionRow) : Decidable r.Checked := inferInstanceAs (Decidable (_ ∧ _))

/-- The CHECKs of `provenance`. -/
def ProvenanceParams.Checked (r : ProvenanceParams Time) : Prop :=
  r.verbatim.length ≤ 2000 ∧ (0 ≤ r.alignment ∧ r.alignment ≤ 1) ∧ r.span_start < r.span_end

instance (r : ProvenanceParams Time) : Decidable r.Checked := inferInstanceAs (Decidable (_ ∧ _))

variable (pg : Driver)

def INSERT_ASSERTION (p : AssertionParams PyObject Timestamp) : Option AssertionRow := do
  let id ← pg.cast p.id
  let tenant_id ← pg.cast p.tenant_id
  let ns ← text p.namespace
  let subject_id ← pg.cast p.subject_id
  let predicate ← text p.predicate
  let object_json ← jsonb p.object_json
  let superseded_by ← p.superseded_by.mapM pg.cast
  let corroboration_count ← int4 p.corroboration_count
  let trace_id ← text p.trace_id
  let row : AssertionRow :=
    { id := id, tenant_id := tenant_id, «namespace» := ns, subject_id := subject_id
      predicate := predicate, object_json := object_json
      confidence := real p.confidence, risk := real p.risk
      valid_from := pg.timestamptz p.valid_from, valid_to := p.valid_to.map pg.timestamptz
      recorded_at := pg.timestamptz p.recorded_at, retracted_at := p.retracted_at.map pg.timestamptz
      superseded_by := superseded_by, corroboration_count := corroboration_count, trace_id := trace_id
      visible := false }
  if row.Checked then some row else none

/-- One row of the INSERT. -/
def provenance_row (p : ProvenanceParams Timestamp) : Option (ProvenanceParams Time) := do
  let id ← pg.cast p.id
  let assertion_id ← pg.cast p.assertion_id
  let source_hash ← text p.source_hash
  let span_start ← int4 p.span_start
  let span_end ← int4 p.span_end
  let source_tier ← text p.source_tier
  let verbatim ← text p.verbatim
  let row : ProvenanceParams Time :=
    { id := id, assertion_id := assertion_id, source_hash := source_hash
      span_start := span_start, span_end := span_end, source_tier := source_tier, verbatim := verbatim
      alignment := real p.alignment, captured_at := pg.timestamptz p.captured_at }
  if row.Checked then some row else none

/-- The citations one after the other, each `ON CONFLICT (id) DO NOTHING`. -/
def INSERT_PROVENANCE (citations : List (ProvenanceParams Timestamp)) :
    Option (List (ProvenanceParams Time)) :=
  (citations.mapM (provenance_row pg)).map fun rows =>
    rows.foldl (fun table row => insertNew ProvenanceParams.id row table) []

/-- An assertion's rows `ORDER BY captured_at`; rows of one instant come in any order. -/
def SELECT_PROVENANCE (table : List (ProvenanceParams Time)) (aid : AssertionId)
    (rows : List (ProvenanceParams Time)) : Prop :=
  rows.Perm (table.filter fun r => r.assertion_id = aid) ∧
    rows.Pairwise fun r s => r.captured_at ≤ s.captured_at

/-- What the driver reads from TIMESTAMPTZ. -/
def utc (t : Time) : Timestamp := ⟨t, true⟩

/-- Rebuild a `Provenance` from a provenance row. -/
def provenance_from_row (row : ProvenanceParams Time) : Option Provenance := do
  let tier ← SourceTier.ofValue row.source_tier
  if h : row.Checked then
    some
      { source_hash := row.source_hash, source_span := (row.span_start, row.span_end), source_tier := tier
        verbatim := row.verbatim, alignment := ⟨row.alignment, h.2.1⟩, captured_at := utc row.captured_at
        verbatim_short := h.1, span_real := h.2.2 }
  else none

theorem utc_coherent {valid_from : Time} {valid_to : Option Time} (h : ∀ t ∈ valid_to, valid_from ≤ t) :
    ∀ t ∈ valid_to.map utc, t.aware = (utc valid_from).aware ∧ (utc valid_from).instant ≤ t.instant := by
  rintro _ ht
  obtain ⟨t, hmem, rfl⟩ := Option.map_eq_some_iff.mp ht
  exact ⟨rfl, h t hmem⟩

/-- Rebuild a `StoredAssertion` from one row and its citations. -/
def assertion_from_row (row : AssertionRow) (provenance : List Provenance) : Option StoredAssertion := do
  let object ← object_from row.object_json
  if h : ((0 ≤ row.confidence ∧ row.confidence ≤ 1) ∧ (0 ≤ row.risk ∧ row.risk ≤ 1)) ∧
      provenance ≠ [] ∧ 1 ≤ row.corroboration_count ∧ ∀ t ∈ row.valid_to, row.valid_from ≤ t then
    some
      { assertion_id := row.id, tenant_id := row.tenant_id, «namespace» := row.namespace
        subject_id := row.subject_id, predicate := row.predicate, object := object
        confidence := ⟨row.confidence, h.1.1⟩, risk := ⟨row.risk, h.1.2⟩
        valid_from := utc row.valid_from, valid_to := row.valid_to.map utc
        recorded_at := utc row.recorded_at, retracted_at := row.retracted_at.map utc
        superseded_by := row.superseded_by, provenance := provenance
        corroboration_count := row.corroboration_count, trace_id := row.trace_id
        visible := row.visible
        sourced := h.2.1, corroborated := h.2.2.1, interval_coherent := utc_coherent h.2.2.2 }
  else none

/-- `a` was written under a tenant, revealed or not, and read as `b`. -/
def ReadsAs (a : StoredAssertion) (tenant : TenantId) (b : StoredAssertion) : Prop :=
  ∃ (row : AssertionRow) (table rows : List (ProvenanceParams Time)) (citations : List Provenance)
    (visible : Bool),
    INSERT_ASSERTION pg (assertion_params a tenant) = some row ∧
    INSERT_PROVENANCE pg (provenance_params pg.uuid a) = some table ∧
    SELECT_PROVENANCE table row.id rows ∧ rows.mapM provenance_from_row = some citations ∧
    assertion_from_row { row with visible := visible } citations = some b

/-- `a == b`, but for `visible`. -/
def Same (a b : StoredAssertion) : Prop :=
  PyEq b.object.value a.object.value ∧ { b with object := a.object, visible := a.visible } = a

/-! ### The object -/

theorem pyEq_leaf {s t : Scalar} : PyEq (.leaf s) (.leaf t) ↔ s.compared = t.compared := by
  simp [PyEq, Tree.canon]

theorem jsonb_isSome {o : PyObject} : (∃ j, jsonb o = some j) ↔
    GuardMem.Storable o.value ∧ ∀ s ∈ strings o.value, NulFree s := by
  constructor
  · rintro ⟨j, hj⟩
    unfold jsonb at hj
    split_ifs at hj with htaken
    exact htaken
  · intro htaken
    unfold jsonb
    rw [if_pos htaken]
    cases o <;> exact ⟨_, rfl⟩

/-- A finite double alone comes back as a double, equal to what it was. -/
theorem float_read (x : Binary64) :
    ∃ y, object_from (.scalar (to_jsonb (.float (.finite x)))) = some (.float y) ∧
      (Scalar.float y).compared = (Scalar.float (.finite x)).compared := by
  by_cases hbig : 10 ^ 16 ≤ x.magnitude
  · -- from `1e16` up the column gives an integer back, and `float` takes it for the double
    have hmant : x.mant ≠ 0 := fun h0 => by
      rw [Binary64.magnitude_eq_zero.mpr h0] at hbig
      norm_num at hbig
    obtain ⟨i, hi⟩ : ∃ i, loads_scalar (to_jsonb (.float (.finite x))) = .int i := by
      rw [loads_numeral rfl, loads_scalar, if_pos (x.repr_positional_places.mpr hbig)]
      exact ⟨_, rfl⟩
    have hvalue := big_compared hbig
    rw [hi, Scalar.compared, Compared.number.injEq] at hvalue
    obtain ⟨d, e, hd, -, hneg, hmag, -⟩ := Binary64.repr_spec hmant
    have hpos : 0 < x.repr.magnitude := by
      rw [hmag]
      positivity
    have hself := x.nearest_repr
    have habs : |(i : ℚ)| = x.repr.magnitude := by
      rw [hvalue]
      split <;> simp [abs_of_pos hpos]
    have hsign : Decidable.decide (i < 0) = x.neg := by
      have hcast : (i : ℚ) < 0 ↔ i < 0 := Int.cast_lt_zero
      rw [hvalue] at hcast
      cases hx : x.neg <;> simp [← hcast, hx, hpos, hpos.le]
    refine ⟨.finite x, ?_, rfl⟩
    rw [hneg, ← hsign, ← habs] at hself
    rw [object_from, hi]
    dsimp only
    rw [hself]
    rfl
  · have hplaces := mt x.repr_positional_places.mp hbig
    have hcompared := (float_compared_iff x).mpr fun h => absurd h hbig
    obtain ⟨y, hy⟩ : ∃ y, loads_scalar (to_jsonb (.float (.finite x))) = .float y := by
      rw [loads_numeral rfl, loads_scalar, if_neg hplaces]
      split <;> exact ⟨_, rfl⟩
    rw [hy] at hcompared
    exact ⟨y, by rw [object_from, hy], hcompared⟩

/-- CORRECT: what the column takes is read as an object, equal to what was written exactly where no dict
    holds a double that is not round. -/
theorem object_read {o : PyObject} {j : ObjectJson} (h : jsonb o = some j) :
    ∃ o', object_from j = some o' ∧ (PyEq o'.value o.value ↔
      ∀ p, o = .dict p → ∀ x, .float (.finite x) ∈ p.value.scalars → ExactRepr x) := by
  unfold jsonb at h
  split_ifs at h with htaken
  obtain ⟨hstorable, -⟩ := htaken
  cases o with
  | str s =>
      obtain rfl := Option.some.inj h
      exact ⟨.str s, rfl, iff_of_true rfl fun p hp => by cases hp⟩
  | bool b =>
      obtain rfl := Option.some.inj h
      exact ⟨.bool b, rfl, iff_of_true rfl fun p hp => by cases hp⟩
  | float x =>
      obtain rfl := Option.some.inj h
      have hsafe := storable_leaf.mp hstorable
      cases x with
      | finite x =>
          obtain ⟨y, hread, hcompared⟩ := float_read x
          exact ⟨.float y, hread, iff_of_true (pyEq_leaf.mpr hcompared) fun p hp => by cases hp⟩
      | inf neg => cases hsafe.2
      | nan => cases hsafe.2
  | dict p =>
      obtain rfl := Option.some.inj h
      have hvalue : (PyObject.dict (read_back p)).value = dumps_loads p.value := by
        rw [PyObject.value, read_back_value, dumps_loads, map_comp, map_sortKeys]
      refine ⟨.dict (read_back p), rfl, ?_⟩
      rw [hvalue]
      exact (dumps_loads_eq_iff (v := p.value) p.distinct hstorable).trans (by simp)

/-! ### The citations -/

/-- The columns take the citation. -/
def Provenance.Taken (p : Provenance) : Prop :=
  NulFree p.source_hash ∧ NulFree p.verbatim ∧ p.source_span.2 < 2 ^ 31

/-- REAL does not leave the unit interval, so no CHECK fails. -/
theorem real_unit (x : UnitFloat) : 0 ≤ real x.1 ∧ real x.1 ≤ 1 :=
  ⟨FloatFormat.round_nonneg, FloatFormat.round_le_one (by decide) (by decide) x.2.2⟩

theorem real_real (q : ℚ) : real (real q) = real q := FloatFormat.round_round (by decide)

/-- The row of a citation. -/
def Provenance.row (p : Provenance) (pg : Driver) (aid : AssertionId) : ProvenanceParams Time :=
  { citation_params pg.uuid aid p with
    alignment := real p.alignment.1, captured_at := pg.timestamptz p.captured_at }

/-- What is read of a citation. -/
def Provenance.reread (p : Provenance) (pg : Driver) : Provenance :=
  { p with
    alignment := ⟨real p.alignment.1, real_unit p.alignment⟩
    captured_at := utc (pg.timestamptz p.captured_at) }

theorem nulFree_value (tier : SourceTier) : NulFree tier.value := by
  cases tier <;> decide

variable {pg : Driver} {aid : AssertionId} {p q : Provenance} {r : ProvenanceParams Time}

theorem provenance_row_eq_some (haid : pg.cast aid = some aid) :
    provenance_row pg (citation_params pg.uuid aid p) = some r ↔ p.Taken ∧ r = p.row pg aid := by
  have hchecked : (p.row pg aid).Checked := ⟨p.verbatim_short, real_unit p.alignment, p.span_real⟩
  have hid : pg.cast (citation_params pg.uuid aid p).id = some (citation_id pg.uuid aid p) := pg.cast_of _
  have haid' : pg.cast (citation_params pg.uuid aid p).assertion_id = some aid := haid
  simp only [provenance_row, Option.bind_eq_bind, Option.bind_eq_some_iff, hid, haid', text_eq_some,
    int4_eq_some, Option.some.injEq, exists_eq_left', and_assoc, Option.ite_none_right_eq_some,
    exists_and_left]
  constructor
  · rintro ⟨hhash, -, hend, -, hverbatim, -, rfl⟩
    exact ⟨⟨hhash, hverbatim, hend⟩, rfl⟩
  · rintro ⟨⟨hhash, hverbatim, hend⟩, rfl⟩
    exact ⟨hhash, p.span_real.trans hend, hend, nulFree_value _, hverbatim, hchecked, rfl⟩

theorem provenance_from_row_row : provenance_from_row (p.row pg aid) = some (p.reread pg) := by
  have hchecked : (p.row pg aid).Checked := ⟨p.verbatim_short, real_unit p.alignment, p.span_real⟩
  have htier : SourceTier.ofValue (p.row pg aid).source_tier = some p.source_tier :=
    SourceTier.ofValue_value p.source_tier
  rw [provenance_from_row, htier, Option.bind_eq_bind, Option.bind_some, dif_pos hchecked]
  rfl

/-- The citations of a list that go in: of those under one id, the first. -/
def inserted (uuid : Uuid5) (aid : AssertionId) (ps : List Provenance) : List Provenance :=
  ps.foldl (fun table p => insertNew (citation_id uuid aid) p table) []

variable {ps cs : List Provenance} {table rows : List (ProvenanceParams Time)}

theorem INSERT_PROVENANCE_eq_some (haid : pg.cast aid = some aid) :
    INSERT_PROVENANCE pg (ps.map (citation_params pg.uuid aid)) = some table ↔
      (∀ p ∈ ps, p.Taken) ∧ table = (inserted pg.uuid aid ps).map fun p => p.row pg aid := by
  have hrows : ∀ p r, (provenance_row pg ∘ citation_params pg.uuid aid) p = some r ↔
      p.Taken ∧ r = p.row pg aid := fun p r => provenance_row_eq_some haid
  have hinserted : (ps.map fun p => p.row pg aid).foldl
      (fun table row => insertNew ProvenanceParams.id row table) [] =
        (inserted pg.uuid aid ps).map fun p => p.row pg aid :=
    foldl_insertNew_map (g := fun p : Provenance => p.row pg aid) (t := []) fun p => rfl
  simp only [INSERT_PROVENANCE, List.mapM_map, Option.map_eq_some_iff, mapM_eq_some_iff hrows, ← hinserted]
  constructor
  · rintro ⟨_, ⟨h, rfl⟩, rfl⟩
    exact ⟨h, rfl⟩
  · rintro ⟨h, rfl⟩
    exact ⟨_, ⟨h, rfl⟩, rfl⟩

/-- CORRECT: what may be read of the citations is any order by `captured_at` of those that went in. -/
theorem citations_read_iff :
    (∃ rows, SELECT_PROVENANCE ((inserted pg.uuid aid ps).map fun p => p.row pg aid) aid rows ∧
      rows.mapM provenance_from_row = some cs) ↔
    ∃ qs : List Provenance, qs.Perm (inserted pg.uuid aid ps) ∧
      qs.Pairwise (fun p q => pg.timestamptz p.captured_at ≤ pg.timestamptz q.captured_at) ∧
      cs = qs.map fun p => p.reread pg := by
  have hall : ((inserted pg.uuid aid ps).map fun p => p.row pg aid).filter (fun r => r.assertion_id = aid) =
      (inserted pg.uuid aid ps).map fun p => p.row pg aid := by
    refine List.filter_eq_self.mpr fun r hr => ?_
    obtain ⟨p, -, rfl⟩ := List.mem_map.mp hr
    exact decide_eq_true rfl
  have hread : ∀ qs : List Provenance, (qs.map fun p => p.row pg aid).mapM provenance_from_row = some cs ↔
      cs = qs.map fun p => p.reread pg := by
    intro qs
    have hrow : ∀ p c, (provenance_from_row ∘ fun p : Provenance => p.row pg aid) p = some c ↔
        True ∧ c = p.reread pg := fun p c => by
      rw [Function.comp_apply, provenance_from_row_row, Option.some.injEq, true_and, eq_comm]
    rw [List.mapM_map, mapM_eq_some_iff hrow]
    simp
  unfold SELECT_PROVENANCE
  rw [hall]
  constructor
  · rintro ⟨rows, ⟨hperm, hordered⟩, hrows⟩
    obtain ⟨qs, hqs, rfl⟩ := exists_of_perm_map hperm
    exact ⟨qs, hqs, (List.pairwise_map (f := fun p : Provenance => p.row pg aid)).mp hordered,
      (hread qs).mp hrows⟩
  · rintro ⟨qs, hperm, hordered, hcs⟩
    exact ⟨_, ⟨hperm.map _, (List.pairwise_map (f := fun p : Provenance => p.row pg aid)).mpr hordered⟩,
      (hread qs).mpr hcs⟩

/-! ### What comes back as it is -/

theorem real_eq_iff {q : ℚ} : real q = q ↔ FloatFormat.Format 24 (-149) q :=
  FloatFormat.round_eq_iff (by decide)

/-- A datetime is read as it was exactly where it has an offset. -/
theorem utc_eq_iff {t : Timestamp} : utc (pg.timestamptz t) = t ↔ t.aware = true := by
  constructor
  · intro h
    exact congrArg Timestamp.aware h ▸ rfl
  · intro h
    rw [pg.timestamptz_aware t h, utc, ← h]

theorem reread_eq_iff : p.reread pg = p ↔
    FloatFormat.Format 24 (-149) p.alignment.1 ∧ p.captured_at.aware = true := by
  rw [← real_eq_iff, ← @utc_eq_iff pg]
  constructor
  · intro h
    exact ⟨congrArg (fun p => p.alignment.1) h, congrArg Provenance.captured_at h⟩
  · rintro ⟨hreal, hutc⟩
    rw [Provenance.reread, hutc]
    simp only [hreal]

/-- What was read once is read as it is. -/
theorem reread_reread : (p.reread pg).reread pg = p.reread pg :=
  reread_eq_iff.mpr ⟨real_eq_iff.mp (real_real _), rfl⟩

/-! ### The assertion -/

variable {a b : StoredAssertion} {tenant tenant_id : TenantId} {subject_id : EntityId} {j : ObjectJson}
  {object : PyObject} {recorded_at : Time} {g : GovernedCandidate}

/-- The fact is still as the applier builds it, whatever it cites. -/
structure Built (pg : Driver) (a : StoredAssertion) : Prop where
  derived : ∃ name, a.assertion_id = pg.uuid.of name
  open_ended : a.valid_to = none
  believed : a.retracted_at = none
  standing : a.superseded_by = none
  alone : a.corroboration_count = 1
  recorded : a.recorded_at.aware = true

theorem built_fresh (first : Provenance) (rest : List Provenance) :
    Built pg ((fresh pg.uuid recorded_at g).citing first rest) :=
  ⟨⟨_, rfl⟩, rfl, rfl, rfl, rfl, rfl⟩

/-- The columns take the assertion, as one of this tenant, this subject and this object. -/
structure Taken (pg : Driver) (a : StoredAssertion) (tenant tenant_id : TenantId) (subject_id : EntityId)
    (j : ObjectJson) : Prop where
  tenant : pg.cast tenant = some tenant_id
  subject : pg.cast a.subject_id = some subject_id
  namespace_text : NulFree a.namespace
  predicate_text : NulFree a.predicate
  trace_text : NulFree a.trace_id
  object : jsonb a.object = some j

/-- The row of an assertion. -/
def StoredAssertion.row (a : StoredAssertion) (pg : Driver) (tenant_id : TenantId) (subject_id : EntityId)
    (j : ObjectJson) : AssertionRow where
  id := a.assertion_id
  tenant_id := tenant_id
  «namespace» := a.namespace
  subject_id := subject_id
  predicate := a.predicate
  object_json := j
  confidence := real a.confidence.1
  risk := real a.risk.1
  valid_from := pg.timestamptz a.valid_from
  valid_to := a.valid_to.map pg.timestamptz
  recorded_at := pg.timestamptz a.recorded_at
  retracted_at := a.retracted_at.map pg.timestamptz
  superseded_by := a.superseded_by
  corroboration_count := a.corroboration_count
  trace_id := a.trace_id
  visible := false

theorem Built.cast_id (h : Built pg a) : pg.cast a.assertion_id = some a.assertion_id := by
  obtain ⟨name, hname⟩ := h.derived
  rw [hname, pg.cast_of]

theorem INSERT_ASSERTION_eq_some (h : Built pg a) {row : AssertionRow} :
    INSERT_ASSERTION pg (assertion_params a tenant) = some row ↔
      ∃ tenant_id subject_id j, Taken pg a tenant tenant_id subject_id j ∧
        row = a.row pg tenant_id subject_id j := by
  have hid : pg.cast (assertion_params a tenant).id = some a.assertion_id := h.cast_id
  have hsuperseded : (assertion_params a tenant).superseded_by.mapM pg.cast = some a.superseded_by := by
    have hnone : (assertion_params a tenant).superseded_by = none := h.standing
    rw [hnone, h.standing]
    rfl
  have hcount : a.corroboration_count < 2 ^ 31 := by
    rw [h.alone]
    norm_num
  have hchecked : ∀ tenant_id subject_id j, (a.row pg tenant_id subject_id j).Checked := by
    intro tenant_id subject_id j
    refine ⟨real_unit a.confidence, real_unit a.risk, a.corroborated, ?_, ?_⟩
    · simp [StoredAssertion.row, h.open_ended]
    · simp [StoredAssertion.row, h.standing]
  simp only [INSERT_ASSERTION, Option.bind_eq_bind, Option.bind_eq_some_iff, hid, hsuperseded, text_eq_some,
    int4_eq_some, Option.some.injEq, exists_eq_left', and_assoc, Option.ite_none_right_eq_some,
    exists_and_left]
  constructor
  · rintro ⟨tenant_id, htenant, hns, subject_id, hsubject, hpredicate, j, hj, -, htrace, -, rfl⟩
    exact ⟨tenant_id, subject_id, j, ⟨htenant, hsubject, hns, hpredicate, htrace, hj⟩, rfl⟩
  · rintro ⟨tenant_id, subject_id, j, ⟨htenant, hsubject, hns, hpredicate, htrace, hj⟩, rfl⟩
    exact ⟨tenant_id, htenant, hns, subject_id, hsubject, hpredicate, j, hj, hcount, htrace,
      hchecked tenant_id subject_id j, rfl⟩

/-- What is read of an assertion. -/
def StoredAssertion.reread (a : StoredAssertion) (pg : Driver) (tenant_id : TenantId) (subject_id : EntityId)
    (object : PyObject) (visible : Bool) (citations : List Provenance) (h : citations ≠ []) :
    StoredAssertion :=
  { a with
    tenant_id := tenant_id, subject_id := subject_id, object := object
    confidence := ⟨real a.confidence.1, real_unit a.confidence⟩, risk := ⟨real a.risk.1, real_unit a.risk⟩
    valid_from := utc (pg.timestamptz a.valid_from), valid_to := none
    recorded_at := utc (pg.timestamptz a.recorded_at)
    provenance := citations, visible := visible, sourced := h, interval_coherent := open_ended _ }

theorem assertion_from_row_eq_some (h : Built pg a) {visible : Bool} (hobject : object_from j = some object) :
    assertion_from_row { a.row pg tenant_id subject_id j with visible := visible } cs = some b ↔
      ∃ hcs, b = a.reread pg tenant_id subject_id object visible cs hcs := by
  have hrow : object_from (a.row pg tenant_id subject_id j).object_json = some object := hobject
  have hdates : ∀ t ∈ (a.row pg tenant_id subject_id j).valid_to,
      (a.row pg tenant_id subject_id j).valid_from ≤ t := by
    simp [StoredAssertion.row, h.open_ended]
  rw [assertion_from_row, hrow, Option.bind_eq_bind, Option.bind_some]
  by_cases hcs : cs = []
  · rw [dif_neg fun hvalid => hvalid.2.1 hcs]
    exact iff_of_false (by simp) fun ⟨hne, _⟩ => hne hcs
  · rw [dif_pos ⟨⟨real_unit a.confidence, real_unit a.risk⟩, hcs, a.corroborated, hdates⟩, Option.some.injEq,
      eq_comm]
    obtain ⟨-, hopen, hbelieved, -, -, -⟩ := h
    cases a
    cases hopen
    cases hbelieved
    exact ⟨fun heq => ⟨hcs, heq⟩, fun ⟨_, heq⟩ => heq⟩

/-- CORRECT: an assertion is read exactly where the columns take it, and is then what they keep of it. -/
theorem read_back_iff (h : Built pg a) : ReadsAs pg a tenant b ↔
    ∃ tenant_id subject_id j object visible, Taken pg a tenant tenant_id subject_id j ∧
      object_from j = some object ∧ (∀ p ∈ a.provenance, p.Taken) ∧
      ∃ qs : List Provenance, qs.Perm (inserted pg.uuid a.assertion_id a.provenance) ∧
        qs.Pairwise (fun p q => pg.timestamptz p.captured_at ≤ pg.timestamptz q.captured_at) ∧
        ∃ hqs, b = a.reread pg tenant_id subject_id object visible (qs.map fun p => p.reread pg) hqs := by
  constructor
  · rintro ⟨row, table, rows, citations, visible, hrow, htable, hselect, hread, hb⟩
    obtain ⟨tenant_id, subject_id, j, htaken, rfl⟩ := (INSERT_ASSERTION_eq_some h).mp hrow
    obtain ⟨hcitations, rfl⟩ := (INSERT_PROVENANCE_eq_some h.cast_id).mp htable
    obtain ⟨qs, hperm, hordered, rfl⟩ := citations_read_iff.mp ⟨rows, hselect, hread⟩
    obtain ⟨object, hobject, -⟩ := object_read htaken.object
    exact ⟨tenant_id, subject_id, j, object, visible, htaken, hobject, hcitations, qs, hperm, hordered,
      (assertion_from_row_eq_some h hobject).mp hb⟩
  · rintro ⟨tenant_id, subject_id, j, object, visible, htaken, hobject, hcitations, qs, hperm, hordered, hb⟩
    obtain ⟨rows, hselect, hread⟩ := citations_read_iff.mpr ⟨qs, hperm, hordered, rfl⟩
    exact ⟨_, _, rows, _, visible, (INSERT_ASSERTION_eq_some h).mpr ⟨tenant_id, subject_id, j, htaken, rfl⟩,
      (INSERT_PROVENANCE_eq_some h.cast_id).mpr ⟨hcitations, rfl⟩, hselect, hread,
      (assertion_from_row_eq_some h hobject).mpr hb⟩

/-! ### The rows over exact columns -/

/-- A citation over instants. -/
structure Provenance.Stands (p : Provenance) (q : GuardMem.Provenance) : Prop where
  source_hash : p.source_hash = q.source_hash
  source_span : p.source_span = q.source_span
  source_tier : p.source_tier = q.source_tier
  verbatim : p.verbatim = q.verbatim
  alignment : p.alignment = q.alignment
  captured_at : p.captured_at = utc q.captured_at

/-- A fact over instants, its object apart. -/
structure StoredAssertion.Stands (a : StoredAssertion) (b : GuardMem.StoredAssertion) : Prop where
  assertion_id : a.assertion_id = b.assertion_id
  tenant_id : a.tenant_id = b.tenant_id
  «namespace» : a.namespace = b.namespace
  subject_id : a.subject_id = b.subject_id
  predicate : a.predicate = b.predicate
  confidence : a.confidence = b.confidence
  risk : a.risk = b.risk
  valid_from : a.valid_from = utc b.valid_from
  valid_to : a.valid_to = b.valid_to.map utc
  recorded_at : a.recorded_at = utc b.recorded_at
  retracted_at : a.retracted_at = b.retracted_at.map utc
  superseded_by : a.superseded_by = b.superseded_by
  provenance : List.Forall₂ Provenance.Stands a.provenance b.provenance
  corroboration_count : a.corroboration_count = b.corroboration_count
  trace_id : a.trace_id = b.trace_id

/-- A row as the tables hold it, over exact numbers. -/
def ProvenanceParams.exact (r : ProvenanceParams Time) : ProvenanceRow :=
  ⟨r.id, r.assertion_id, r.source_hash, r.span_start, r.span_end, r.source_tier, r.verbatim, r.alignment,
    r.captured_at⟩

def AssertionRow.exact (r : AssertionRow) (object_json : Json) (embedding : Option (List ℚ)) :
    GuardMem.AssertionRow :=
  ⟨r.id, r.tenant_id, r.namespace, r.subject_id, r.predicate, object_json, r.confidence, r.risk, r.valid_from,
    r.valid_to, r.recorded_at, r.retracted_at, r.superseded_by, r.corroboration_count, r.trace_id, r.visible,
    embedding⟩

@[simp] theorem timestamptz_utc (t : Time) : pg.timestamptz (utc t) = t := pg.timestamptz_aware _ rfl

@[simp] theorem timestamptz_comp_utc : pg.timestamptz ∘ utc = id := funext timestamptz_utc

/-- CORRECT: the row of a citation that comes back as it is is the row over exact columns. -/
theorem provenance_row_stands {q : GuardMem.Provenance} (h : p.Stands q) (hkept : p.reread pg = p) :
    (p.row pg aid).exact = GuardMem.citation_params pg.uuid aid q := by
  have hreal : real q.alignment.1 = q.alignment.1 := h.alignment ▸ congrArg (fun p => p.alignment.1) hkept
  simp [ProvenanceParams.exact, Provenance.row, citation_params, citation_id, GuardMem.citation_params,
    GuardMem.citation_id, h.source_hash, h.source_span, h.source_tier, h.verbatim, hreal, h.alignment,
    h.captured_at]

/-- CORRECT: and so is the row of a fact whose numbers REAL keeps. -/
theorem assertion_row_stands {b : GuardMem.StoredAssertion} (h : a.Stands b)
    (hconfidence : real a.confidence.1 = a.confidence.1) (hrisk : real a.risk.1 = a.risk.1)
    (vector : List ℚ) :
    (a.row pg tenant b.subject_id j).exact b.object.toJson (some vector) =
      GuardMem.assertion_params b tenant vector := by
  rw [h.confidence] at hconfidence
  rw [h.risk] at hrisk
  simp [AssertionRow.exact, StoredAssertion.row, GuardMem.assertion_params, hconfidence, hrisk,
    h.assertion_id, h.namespace, h.predicate, h.confidence, h.risk, h.valid_from, h.valid_to, h.recorded_at,
    h.retracted_at, h.superseded_by, h.corroboration_count, h.trace_id]

/-- A governed candidate over instants. -/
structure GovernedCandidate.Stands (g : GovernedCandidate) (g' : GuardMem.GovernedCandidate) : Prop where
  candidate_id : g.candidate.candidate_id = g'.candidate.candidate_id
  tenant_id : g.candidate.tenant_id = g'.candidate.tenant_id
  «namespace» : g.candidate.namespace = g'.candidate.namespace
  predicate : g.candidate.predicate = g'.candidate.predicate
  valid_from : g.candidate.valid_from = g'.candidate.valid_from.map utc
  provenance : g.candidate.provenance.Stands g'.candidate.provenance
  trace_id : g.candidate.trace_id = g'.candidate.trace_id
  subject_id : g.subject_id = g'.subject_id
  record : g.record = g'.record

/-- CORRECT: the applier builds the same fact of both. -/
theorem fresh_stands {uuid : Uuid5} {g' : GuardMem.GovernedCandidate} (h : g.Stands g') :
    (fresh uuid recorded_at g).Stands (GuardMem.fresh uuid recorded_at g') := by
  have hid : (fresh uuid recorded_at g).assertion_id =
      (GuardMem.fresh uuid recorded_at g').assertion_id := by
    simp [fresh, GuardMem.fresh, assertion_id, h.trace_id, h.candidate_id]
  have hfrom : (fresh uuid recorded_at g).valid_from =
      utc (GuardMem.fresh uuid recorded_at g').valid_from := by
    simp only [fresh, GuardMem.fresh, h.valid_from, h.provenance.captured_at]
    cases g'.candidate.valid_from <;> rfl
  exact
    { assertion_id := hid
      tenant_id := h.tenant_id
      «namespace» := h.namespace
      subject_id := h.subject_id
      predicate := h.predicate
      confidence := congrArg (fun r => r.confidence.confidence) h.record
      risk := congrArg (fun r => r.risk.risk) h.record
      valid_from := hfrom
      valid_to := rfl
      recorded_at := rfl
      retracted_at := rfl
      superseded_by := rfl
      provenance := .cons h.provenance .nil
      corroboration_count := rfl
      trace_id := h.trace_id }

end GuardMem.TypedRows
