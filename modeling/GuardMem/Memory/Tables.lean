import GuardMem.Lib.Table
import GuardMem.Schemas.Base
import Mathlib.Data.List.Sort

/-! The four tables of the write path and the statements that touch them.

    A statement takes the database to the next one or raises. Row-level security, the CHECK
    constraints, the foreign keys and the deferred provenance trigger are part of a statement's
    meaning, so each has one `_ok` lemma saying when it succeeds and what it does then. -/

namespace GuardMem

open Lib.Table

/-! ### Raising -/

/-- Go on if `p` holds, else raise. -/
def require (p : Prop) [Decidable p] (e : Exc) : Except Exc Unit :=
  if p then .ok () else .error e

@[simp] theorem require_ok {p : Prop} [Decidable p] {e : Exc} {u : Unit} :
    require p e = .ok u ↔ p := by
  unfold require
  split <;> simp [*]

@[simp] theorem bind_ok {α β : Type} {x : Except Exc α} {f : α → Except Exc β} {b : β} :
    (x >>= f) = .ok b ↔ ∃ a, x = .ok a ∧ f a = .ok b := by
  cases x with
  | error e => simp [bind, Except.bind]
  | ok a => simp [bind, Except.bind]

/-! ### Rows -/

/-- A row of `assertion`. -/
structure AssertionRow where
  id : AssertionId
  tenant_id : TenantId
  «namespace» : Namespace
  subject_id : EntityId
  predicate : String
  object_json : Json
  confidence : ℚ
  risk : ℚ
  valid_from : Time
  valid_to : Option Time
  recorded_at : Time
  retracted_at : Option Time
  superseded_by : Option AssertionId
  corroboration_count : ℕ
  trace_id : TraceId
  visible : Bool
  embedding : Option (List ℚ)
  deriving DecidableEq

/-- A row of `provenance`: one citation of one assertion. -/
structure ProvenanceRow where
  id : String
  assertion_id : AssertionId
  source_hash : String
  span_start : ℕ
  span_end : ℕ
  source_tier : String
  verbatim : String
  alignment : ℚ
  captured_at : Time
  deriving DecidableEq

/-- A row of `outbox`: one pending or finished dual write. -/
structure OutboxRow where
  id : String
  assertion_id : AssertionId
  event : Json
  attempts : ℕ
  created_at : Time
  dispatched_at : Option Time
  deriving DecidableEq

/-- `AuditEvent`'s six kinds. -/
inductive AuditKind where
  | DECISION
  | WRITE
  | REVIEW
  | POLICY_CHANGE
  | QUARANTINE
  | SUPERSEDE
  deriving DecidableEq

/-- A row of `audit_event`; its `seq` is its position in the table. -/
structure AuditRow where
  tenant_id : TenantId
  trace_id : TraceId
  kind : AuditKind
  payload : Json
  prev_digest : String
  digest : String
  created_at : Time
  deriving DecidableEq

structure Db where
  assertions : List AssertionRow
  provenance : List ProvenanceRow
  outbox : List OutboxRow
  audit : List AuditRow
  deriving DecidableEq

def Db.empty : Db := ⟨[], [], [], []⟩

/-- The stored assertion ids. -/
def Db.ids (db : Db) : List AssertionId := db.assertions.map AssertionRow.id

/-- Believed now: neither superseded nor retracted. -/
def AssertionRow.live (r : AssertionRow) : Bool := r.valid_to.isNone && r.retracted_at.isNone

/-- The first CHECK of `assertion` the row breaks. -/
def AssertionRow.violated (r : AssertionRow) : Option String :=
  if ¬ (0 ≤ r.confidence ∧ r.confidence ≤ 1) then some "assertion_confidence_check"
  else if ¬ (0 ≤ r.risk ∧ r.risk ≤ 1) then some "assertion_risk_check"
  else if ¬ 1 ≤ r.corroboration_count then some "assertion_corroboration_count_check"
  else if ¬ ∀ t ∈ r.valid_to, r.valid_from ≤ t then some "assertion_validity_not_inverted"
  else if r.superseded_by = some r.id then some "assertion_not_self_superseding"
  else none

theorem AssertionRow.violated_eq_none {r : AssertionRow} :
    r.violated = none ↔ (0 ≤ r.confidence ∧ r.confidence ≤ 1) ∧ (0 ≤ r.risk ∧ r.risk ≤ 1) ∧
      1 ≤ r.corroboration_count ∧ (∀ t ∈ r.valid_to, r.valid_from ≤ t) ∧
      r.superseded_by ≠ some r.id := by
  unfold AssertionRow.violated
  split_ifs <;> simp_all

/-- The first CHECK of `provenance` the row breaks. -/
def ProvenanceRow.violated (p : ProvenanceRow) : Option String :=
  if ¬ p.verbatim.length ≤ 2000 then some "provenance_verbatim_check"
  else if ¬ (0 ≤ p.alignment ∧ p.alignment ≤ 1) then some "provenance_alignment_check"
  else if ¬ p.span_start < p.span_end then some "provenance_span_non_empty"
  else none

/-- `None`, or the `CheckViolation` it names. -/
def check : Option String → Except Exc Unit
  | none => .ok ()
  | some constraint => .error (.CheckViolation constraint)

@[simp] theorem check_ok {v : Option String} {u : Unit} : check v = .ok u ↔ v = none := by
  cases v <;> simp [check]

/-! ### Statements on `assertion` and `provenance`, under `app.tenant_id = tenant` -/

/-- `INSERT INTO assertion ... ON CONFLICT (id) DO NOTHING`. The foreign key of `superseded_by` is
    checked for a row that went in. -/
def INSERT_ASSERTION (uuid : Uuid5) (tenant : TenantId) (row : AssertionRow) (db : Db) :
    Except Exc Db := do
  require (uuid.valid row.id = true) (.DataError row.id)
  check row.violated
  require (row.tenant_id = tenant) (.InsufficientPrivilege "assertion")
  let assertions := insertNew AssertionRow.id row db.assertions
  require (row.id ∈ db.ids ∨ ∀ s ∈ row.superseded_by, s ∈ assertions.map AssertionRow.id)
    (.ForeignKeyViolation "superseded_by")
  .ok { db with assertions := assertions }

theorem INSERT_ASSERTION_ok {uuid : Uuid5} {tenant : TenantId} {row : AssertionRow} {db db' : Db} :
    INSERT_ASSERTION uuid tenant row db = .ok db' ↔
      uuid.valid row.id = true ∧ row.violated = none ∧ row.tenant_id = tenant ∧
      (row.id ∈ db.ids ∨ ∀ s ∈ row.superseded_by,
        s ∈ (insertNew AssertionRow.id row db.assertions).map AssertionRow.id) ∧
      { db with assertions := insertNew AssertionRow.id row db.assertions } = db' := by
  simp [INSERT_ASSERTION]

/-- The row is one this tenant may see. -/
def Db.sees (db : Db) (tenant : TenantId) (aid : AssertionId) : Prop :=
  ∃ r ∈ db.assertions, r.id = aid ∧ r.tenant_id = tenant

instance (db : Db) (tenant : TenantId) (aid : AssertionId) : Decidable (db.sees tenant aid) :=
  inferInstanceAs (Decidable (∃ r ∈ db.assertions, r.id = aid ∧ r.tenant_id = tenant))

/-- `INSERT INTO provenance ... ON CONFLICT (id) DO NOTHING`. Its policy admits a citation of an
    assertion the tenant can see, whether or not the row goes in. -/
def INSERT_PROVENANCE (tenant : TenantId) (row : ProvenanceRow) (db : Db) : Except Exc Db := do
  require (row.span_start ≤ row.span_end) (.DataError "int4range")
  check row.violated
  require (db.sees tenant row.assertion_id) (.InsufficientPrivilege "provenance")
  .ok { db with provenance := insertNew ProvenanceRow.id row db.provenance }

theorem INSERT_PROVENANCE_ok {tenant : TenantId} {row : ProvenanceRow} {db db' : Db} :
    INSERT_PROVENANCE tenant row db = .ok db' ↔
      row.span_start ≤ row.span_end ∧ row.violated = none ∧ db.sees tenant row.assertion_id ∧
      { db with provenance := insertNew ProvenanceRow.id row db.provenance } = db' := by
  simp [INSERT_PROVENANCE]

/-- The rows `SUPERSEDE` updates. -/
def supersedes (tenant : TenantId) (old : AssertionId) (r : AssertionRow) : Bool :=
  r.id == old && r.valid_to.isNone && r.tenant_id == tenant

/-- What `SUPERSEDE` sets. -/
def AssertionRow.retire (t : Time) (new : AssertionId) (r : AssertionRow) : AssertionRow :=
  { r with valid_to := some t, superseded_by := some new }

@[simp] theorem AssertionRow.retire_id (t : Time) (n : AssertionId) (r : AssertionRow) :
    (r.retire t n).id = r.id := rfl

/-- `UPDATE assertion SET valid_to = $1, superseded_by = $2 WHERE id = $3 AND valid_to IS NULL`;
    also the number of rows it matched. -/
def SUPERSEDE (tenant : TenantId) (t : Time) (new old : AssertionId) (db : Db) :
    Except Exc (ℕ × Db) := do
  let hits := db.assertions.filter (supersedes tenant old)
  check (hits.findSome? fun r => (r.retire t new).violated)
  require (hits = [] ∨ new ∈ db.ids) (.ForeignKeyViolation "superseded_by")
  .ok (hits.length, { db with
    assertions := updateWhere (supersedes tenant old) (AssertionRow.retire t new) db.assertions })

theorem SUPERSEDE_ok {tenant : TenantId} {t : Time} {new old : AssertionId} {db db' : Db} {n : ℕ} :
    SUPERSEDE tenant t new old db = .ok (n, db') ↔
      (∀ r ∈ db.assertions, supersedes tenant old r = true → (r.retire t new).violated = none) ∧
      (db.assertions.filter (supersedes tenant old) = [] ∨ new ∈ db.ids) ∧
      (db.assertions.filter (supersedes tenant old)).length = n ∧
      { db with assertions :=
          updateWhere (supersedes tenant old) (AssertionRow.retire t new) db.assertions } = db' := by
  simp [SUPERSEDE, List.findSome?_eq_none_iff]

/-- `UPDATE assertion SET visible = true WHERE id = $1`. -/
def REVEAL_ASSERTION (tenant : TenantId) (aid : AssertionId) (db : Db) : Db :=
  { db with
    assertions := updateWhere (fun r => r.id == aid && r.tenant_id == tenant)
      (fun r => { r with visible := true }) db.assertions }

/-- `SELECT ... FROM assertion WHERE id = $1`. -/
def SELECT_ASSERTION (tenant : TenantId) (aid : AssertionId) (db : Db) : Option AssertionRow :=
  db.assertions.find? fun r => r.id == aid && r.tenant_id == tenant

/-- `SELECT ... FROM provenance WHERE assertion_id = ... ORDER BY captured_at`. -/
def SELECT_PROVENANCE (aid : AssertionId) (db : Db) : List ProvenanceRow :=
  (db.provenance.filter fun p => p.assertion_id == aid).insertionSort
    fun a b => a.captured_at ≤ b.captured_at

/-! ### Statements on `outbox`, which carries no policy -/

/-- `INSERT INTO outbox ... ON CONFLICT (id) DO NOTHING`. -/
def INSERT_OUTBOX (row : OutboxRow) (db : Db) : Except Exc Db := do
  require (row.id ∈ db.outbox.map OutboxRow.id ∨ row.assertion_id ∈ db.ids)
    (.ForeignKeyViolation "assertion_id")
  .ok { db with outbox := insertNew OutboxRow.id row db.outbox }

theorem INSERT_OUTBOX_ok {row : OutboxRow} {db db' : Db} :
    INSERT_OUTBOX row db = .ok db' ↔
      (row.id ∈ db.outbox.map OutboxRow.id ∨ row.assertion_id ∈ db.ids) ∧
      { db with outbox := insertNew OutboxRow.id row db.outbox } = db' := by
  simp [INSERT_OUTBOX]

/-- `UPDATE outbox SET dispatched_at = $1 WHERE id = $2 AND dispatched_at IS NULL`. -/
def MARK_DISPATCHED (t : Time) (oid : String) (db : Db) : Db :=
  { db with
    outbox := updateWhere (fun o => o.id == oid && o.dispatched_at.isNone)
      (fun o => { o with dispatched_at := some t }) db.outbox }

/-! ### Transactions -/

/-- `assertion_requires_provenance`: a row that went in during the transaction and has no citation
    at COMMIT. -/
def unsourced (before after : Db) (r : AssertionRow) : Bool :=
  r.id ∉ before.ids && (after.provenance.all fun p => p.assertion_id != r.id)

/-- Run `body` and commit. An exception, the deferred trigger's included, leaves the caller with the
    database it had. -/
def transaction {α : Type} (body : Db → Except Exc (α × Db)) (db : Db) : Except Exc (α × Db) := do
  let (a, after) ← body db
  match after.assertions.find? (unsourced db after) with
  | some r => .error (.RaiseException
      ("assertion " ++ r.id ++ " has no provenance; RULES.md 1.1 forbids an unsourced write"))
  | none => .ok (a, after)

theorem transaction_ok {α : Type} {body : Db → Except Exc (α × Db)} {db db' : Db} {a : α} :
    transaction body db = .ok (a, db') ↔
      body db = .ok (a, db') ∧ ∀ r ∈ db'.assertions, unsourced db db' r = false := by
  simp only [transaction, bind_ok, Prod.exists]
  constructor
  · rintro ⟨b, after, hbody, hmatch⟩
    split at hmatch
    · exact absurd hmatch (by simp)
    · next hfind =>
        obtain ⟨rfl, rfl⟩ := Prod.mk.inj (Except.ok.inj hmatch)
        exact ⟨hbody, by simpa using hfind⟩
  · rintro ⟨hbody, hall⟩
    refine ⟨a, db', hbody, ?_⟩
    have hfind : db'.assertions.find? (unsourced db db') = none := by simpa using hall
    rw [hfind]

end GuardMem
