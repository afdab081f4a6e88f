import GuardMem.Memory.Wellformed
import GuardMem.Pipeline.PerCandidate

/-! Turning a decision into state: `applier.apply` and `apply_all`.

    One apply is one transaction over the four tables. CORRECT: a writing apply commits if and only if
    it `Lands`, and then it has done exactly what `landed` says (`apply_writes_ok`). -/

namespace GuardMem

open Lib.Table

/-- What became of one decision. -/
structure Applied where
  candidate_id : CandidateId
  assertion_id : Option AssertionId
  reason : Option String
  deriving DecidableEq

/-- The three clock readings of one apply: `recorded_at`, the `at` its events and its supersession
    share, and the database's `now()`. -/
structure ApplyClock where
  recorded_at : Time
  applied_at : Time
  now : Time
  deriving DecidableEq

variable (deps : Deps)

/-- Why this decision writes nothing, or `none` when it writes. -/
def refusal (g : GovernedCandidate) : Option String :=
  if g.record.decision ≠ .AUTO_WRITE then some ("decision_" ++ g.record.decision.value)
  else if g.record.conflict.resolution_hint = .merge then some "merge_not_implemented"
  else none

/-- The id an approved candidate's row gets: derived from the trace and the candidate id. -/
def assertion_id (uuid : Uuid5) (g : GovernedCandidate) : AssertionId :=
  uuid.of ("guardmem/assertion/" ++ g.candidate.trace_id ++ "/" ++ g.candidate.candidate_id)

/-- The assertion an approved candidate becomes. -/
def fresh (uuid : Uuid5) (recorded_at : Time) (g : GovernedCandidate) : StoredAssertion where
  assertion_id := assertion_id uuid g
  tenant_id := g.candidate.tenant_id
  «namespace» := g.candidate.namespace
  subject_id := g.subject_id
  predicate := g.candidate.predicate
  object := g.candidate.object
  confidence := g.record.confidence.confidence
  risk := g.record.risk.risk
  valid_from := g.candidate.valid_from.getD g.candidate.provenance.captured_at
  recorded_at := recorded_at
  provenance := [g.candidate.provenance]
  trace_id := g.candidate.trace_id
  sourced := List.cons_ne_nil _ _
  corroborated := le_refl 1
  interval_coherent := by simp

/-- The incumbent an apply retires, if its report asks for a supersession. -/
def retires (g : GovernedCandidate) : Option AssertionId :=
  if g.record.conflict.resolution_hint = .supersede then g.record.conflict.incumbent_assertion_id
  else none

def write_payload (aid : AssertionId) (predicate : String) : Json :=
  .obj <| .ofList [("assertion_id", .str aid), ("predicate", .str predicate)]

def supersede_payload (retired by' : AssertionId) : Json :=
  .obj <| .ofList [("retired", .str retired), ("by", .str by')]

/-- Carry out one decision, atomically, and record it on the chain. -/
def apply (tenant : TenantId) (trace : TraceId) (clock : ApplyClock) (g : GovernedCandidate)
    (db : Db) : Except Exc (Applied × Db) :=
  let reason := refusal g
  let assertion := if reason.isSome then none else some (fresh deps.uuid clock.recorded_at g)
  let prepared := assertion.bind fun a => prepare deps tenant clock.now [a]
  transaction (fun db => do
    let db := append_decision deps g.record tenant trace clock.applied_at db
    match assertion, prepared with
    | some assertion, some prepared => do
        let db ← write_in deps tenant prepared db
        let db := append deps tenant trace .WRITE
          (write_payload assertion.assertion_id assertion.predicate) clock.applied_at db
        match retires g with
        | some retired => do
            let db ← supersede_in tenant retired assertion.assertion_id clock.applied_at db
            let db := append deps tenant trace .SUPERSEDE
              (supersede_payload retired assertion.assertion_id) clock.applied_at db
            .ok (⟨g.candidate.candidate_id, some assertion.assertion_id, none⟩, db)
        | none => .ok (⟨g.candidate.candidate_id, some assertion.assertion_id, none⟩, db)
    | _, _ => .ok (⟨g.candidate.candidate_id, none, reason⟩, db)) db

/-- Apply every decision in a proposal, one transaction each; each comes with its clock. A failed
    apply is attributed, not propagated. -/
def apply_all (tenant : TenantId) (trace : TraceId) :
    List (GovernedCandidate × ApplyClock) → Db → List Applied × List CandidateFailure × Db
  | [], db => ([], [], db)
  | (item, clock) :: rest, db =>
      match apply deps tenant trace clock item db with
      | .error exc =>
          let (applied, failures, db) := apply_all tenant trace rest db
          (applied, ⟨item.candidate.candidate_id, exc⟩ :: failures, db)
      | .ok (outcome, db) =>
          let (applied, failures, db) := apply_all tenant trace rest db
          (outcome :: applied, failures, db)

/-! ### What one apply does -/

/-- The row an apply inserts. -/
def fresh_row (tenant : TenantId) (clock : ApplyClock) (g : GovernedCandidate) : AssertionRow :=
  assertion_params (fresh deps.uuid clock.recorded_at g) tenant
    (deps.embedding g.candidate.predicate g.candidate.object)

/-- The citation an apply inserts. -/
def fresh_citation (uuid : Uuid5) (g : GovernedCandidate) : ProvenanceRow :=
  citation_params uuid (assertion_id uuid g) g.candidate.provenance

/-- The event an apply inserts. -/
def fresh_event (uuid : Uuid5) (tenant : TenantId) (clock : ApplyClock) (g : GovernedCandidate) :
    OutboxRow :=
  outbox_params uuid (fresh uuid clock.recorded_at g) tenant clock.now

/-- The condition, on the state before it, under which a writing apply commits: its id is not held
    for another tenant, and what it retires is another row of the tenant, live and begun by then. -/
structure Lands (tenant : TenantId) (clock : ApplyClock) (g : GovernedCandidate) (db : Db) : Prop where
  writes : refusal g = none
  own : assertion_id deps.uuid g ∉ db.ids ∨ db.sees tenant (assertion_id deps.uuid g)
  target : ∀ old, retires g = some old → old ≠ assertion_id deps.uuid g ∧
    ∃ r ∈ db.assertions, supersedes tenant old r = true ∧ r.valid_from ≤ clock.applied_at

theorem lands_iff {tenant : TenantId} {clock : ApplyClock} {g : GovernedCandidate} {db : Db} :
    Lands deps tenant clock g db ↔ refusal g = none ∧
      (assertion_id deps.uuid g ∉ db.ids ∨ db.sees tenant (assertion_id deps.uuid g)) ∧
      ∀ old ∈ retires g, old ≠ assertion_id deps.uuid g ∧
        ∃ r ∈ db.assertions, supersedes tenant old r = true ∧ r.valid_from ≤ clock.applied_at :=
  ⟨fun h => ⟨h.1, h.2, h.3⟩, fun h => ⟨h.1, h.2.1, h.2.2⟩⟩

instance (tenant : TenantId) (clock : ApplyClock) (g : GovernedCandidate) (db : Db) :
    Decidable (Lands deps tenant clock g db) := decidable_of_iff' _ (lands_iff deps)

/-- The assertion table after an apply that lands. -/
def landed_assertions (tenant : TenantId) (clock : ApplyClock) (g : GovernedCandidate) (db : Db) :
    List AssertionRow :=
  let inserted := insertNew AssertionRow.id (fresh_row deps tenant clock g) db.assertions
  match retires g with
  | some old => updateWhere (supersedes tenant old)
      (AssertionRow.retire clock.applied_at (assertion_id deps.uuid g)) inserted
  | none => inserted

/-- The audit events an apply that lands appends. -/
def landed_audit (tenant : TenantId) (trace : TraceId) (clock : ApplyClock) (g : GovernedCandidate)
    (db : Db) : List AuditRow :=
  let db := append_decision deps g.record tenant trace clock.applied_at db
  let db := append deps tenant trace .WRITE
    (write_payload (assertion_id deps.uuid g) g.candidate.predicate) clock.applied_at db
  match retires g with
  | some old => (append deps tenant trace .SUPERSEDE
      (supersede_payload old (assertion_id deps.uuid g)) clock.applied_at db).audit
  | none => db.audit

/-- The database after an apply that lands. -/
def landed (tenant : TenantId) (trace : TraceId) (clock : ApplyClock) (g : GovernedCandidate)
    (db : Db) : Db where
  assertions := landed_assertions deps tenant clock g db
  provenance := insertNew ProvenanceRow.id (fresh_citation deps.uuid g) db.provenance
  outbox := insertNew OutboxRow.id (fresh_event deps.uuid tenant clock g) db.outbox
  audit := landed_audit deps tenant trace clock g db

/-- What an apply that lands reports. -/
def landed_outcome (g : GovernedCandidate) : Applied :=
  ⟨g.candidate.candidate_id, some (assertion_id deps.uuid g), none⟩

variable {deps} {tenant : TenantId} {trace : TraceId} {clock : ApplyClock} {g : GovernedCandidate}
  {db db' : Db}

@[simp] theorem fresh_row_id : (fresh_row deps tenant clock g).id = assertion_id deps.uuid g := rfl

/-- Writing one fresh assertion succeeds unless its id is held for another tenant. -/
theorem write_in_fresh {prepared : PreparedWrite}
    (hp : prepare deps tenant clock.now [fresh deps.uuid clock.recorded_at g] = some prepared) :
    write_in deps tenant prepared db = .ok db' ↔
      (assertion_id deps.uuid g ∉ db.ids ∨ db.sees tenant (assertion_id deps.uuid g)) ∧
      { db with
        assertions := insertNew AssertionRow.id (fresh_row deps tenant clock g) db.assertions
        provenance := insertNew ProvenanceRow.id (fresh_citation deps.uuid g) db.provenance
        outbox := insertNew OutboxRow.id (fresh_event deps.uuid tenant clock g) db.outbox } = db' := by
  simp only [prepare, List.cons_ne_nil, if_false, Option.some.injEq] at hp
  subst hp
  have hrow : (fresh_row deps tenant clock g).violated = none :=
    assertion_params_violated (by simp [fresh])
  have hcite : (fresh_citation deps.uuid g).violated = none := citation_params_violated _ _ _
  have hspan : (fresh_citation deps.uuid g).span_start ≤ (fresh_citation deps.uuid g).span_end :=
    g.candidate.provenance.span_real.le
  set d := { db with
    assertions := insertNew AssertionRow.id (fresh_row deps tenant clock g) db.assertions } with hd
  have hsees : d.sees tenant (assertion_id deps.uuid g) ↔
      (assertion_id deps.uuid g ∉ db.ids ∨ db.sees tenant (assertion_id deps.uuid g)) := by
    simp only [Db.sees, hd, mem_insertNew]
    constructor
    · rintro ⟨r, hr | ⟨rfl, hnew⟩, hid, ht⟩
      · exact Or.inr ⟨r, hr, hid, ht⟩
      · exact Or.inl hnew
    · rintro (hnew | ⟨r, hr, hid, ht⟩)
      · exact ⟨_, Or.inr ⟨rfl, hnew⟩, rfl, rfl⟩
      · exact ⟨r, Or.inl hr, hid, ht⟩
  have hins : INSERT_ASSERTION deps.uuid tenant (fresh_row deps tenant clock g) db = .ok d :=
    INSERT_ASSERTION_ok.mpr ⟨deps.uuid.valid_of _, hrow, rfl, Or.inr (by simp [fresh_row,
      assertion_params, fresh]), rfl⟩
  have hfk : assertion_id deps.uuid g ∈ d.ids := key_mem_insertNew (x := fresh_row deps tenant clock g)
  simp only [write_in, List.map_cons, List.map_nil, List.flatMap_cons, List.flatMap_nil,
    provenance_params, fresh, List.append_nil, executemany_singleton]
  change (do
    let db ← INSERT_ASSERTION deps.uuid tenant (fresh_row deps tenant clock g) db
    let db ← INSERT_PROVENANCE tenant (fresh_citation deps.uuid g) db
    INSERT_OUTBOX (fresh_event deps.uuid tenant clock g) db) = .ok db' ↔ _
  rw [hins]
  simp only [bind_ok, Except.ok.injEq, exists_eq_left', INSERT_PROVENANCE_ok, INSERT_OUTBOX_ok]
  constructor
  · rintro ⟨_, ⟨-, -, hs, rfl⟩, -, rfl⟩
    exact ⟨hsees.mp hs, rfl⟩
  · rintro ⟨hs, rfl⟩
    exact ⟨_, ⟨hspan, hcite, hsees.mpr hs, rfl⟩, Or.inr hfk, rfl⟩

/-- A refused decision leaves its own event on the chain and nothing else. -/
theorem apply_refused {reason : String} (h : refusal g = some reason) :
    apply deps tenant trace clock g db =
      .ok (⟨g.candidate.candidate_id, none, some reason⟩,
        append_decision deps g.record tenant trace clock.applied_at db) := by
  have hnew : ∀ r ∈ (append_decision deps g.record tenant trace clock.applied_at db).assertions,
      unsourced db (append_decision deps g.record tenant trace clock.applied_at db) r = false := by
    intro r hr
    have hold : r.id ∈ db.ids := List.mem_map_of_mem hr
    simp [unsourced, hold]
  simp only [apply, h, Option.isSome_some, if_true, Option.bind_none]
  exact transaction_ok.mpr ⟨rfl, hnew⟩

/-- The writing half of an apply, before COMMIT. -/
theorem apply_body_ok {o : Applied} (hw : refusal g = none) :
    apply deps tenant trace clock g db = .ok (o, db') ↔
      (assertion_id deps.uuid g ∉ db.ids ∨ db.sees tenant (assertion_id deps.uuid g)) ∧
      (∀ old, retires g = some old →
        (∃ r ∈ insertNew AssertionRow.id (fresh_row deps tenant clock g) db.assertions,
          supersedes tenant old r = true) ∧
        ∀ r ∈ insertNew AssertionRow.id (fresh_row deps tenant clock g) db.assertions,
          supersedes tenant old r = true →
            (r.retire clock.applied_at (assertion_id deps.uuid g)).violated = none) ∧
      o = landed_outcome deps g ∧ db' = landed deps tenant trace clock g db ∧
      ∀ r ∈ db'.assertions, unsourced db db' r = false := by
  obtain ⟨prepared, hp⟩ : ∃ p, prepare deps tenant clock.now [fresh deps.uuid clock.recorded_at g] =
    some p := ⟨_, if_neg (List.cons_ne_nil _ _)⟩
  have hnew : assertion_id deps.uuid g ∈
      (insertNew AssertionRow.id (fresh_row deps tenant clock g) db.assertions).map AssertionRow.id :=
    key_mem_insertNew (x := fresh_row deps tenant clock g)
  simp only [apply, hw, Option.isSome_none, Bool.false_eq_true, if_false, Option.bind_some, hp,
    transaction_ok, bind_ok, write_in_fresh hp]
  cases hr : retires g with
  | none =>
      simp only [Except.ok.injEq, Prod.mk.injEq]
      constructor
      · rintro ⟨⟨d, ⟨hown, rfl⟩, rfl, rfl⟩, hsrc⟩
        refine ⟨hown, by simp, rfl, ?_, hsrc⟩
        simp [landed, landed_assertions, landed_audit, hr, append, append_decision, SELECT_HEAD,
          fresh]
      · rintro ⟨hown, -, rfl, rfl, hsrc⟩
        refine ⟨⟨_, ⟨hown, rfl⟩, rfl, ?_⟩, hsrc⟩
        simp [landed, landed_assertions, landed_audit, hr, append, append_decision, SELECT_HEAD,
          fresh]
  | some old =>
      simp only [bind_ok, supersede_in_ok, Except.ok.injEq, Prod.mk.injEq, Option.some.injEq,
        forall_eq']
      constructor
      · rintro ⟨⟨d, ⟨hown, rfl⟩, d', ⟨hex, hchk, -, rfl⟩, rfl, rfl⟩, hsrc⟩
        refine ⟨hown, ⟨hex, hchk⟩, rfl, ?_, hsrc⟩
        simp [landed, landed_assertions, landed_audit, hr, append, append_decision, SELECT_HEAD,
          fresh]
      · rintro ⟨hown, ⟨hex, hchk⟩, rfl, rfl, hsrc⟩
        refine ⟨⟨_, ⟨hown, rfl⟩, _, ⟨hex, hchk, hnew, rfl⟩, rfl, ?_⟩, hsrc⟩
        simp [landed, landed_assertions, landed_audit, hr, append, append_decision, SELECT_HEAD,
          fresh]

theorem supersedes_iff {old : AssertionId} {r : AssertionRow} :
    supersedes tenant old r = true ↔ r.id = old ∧ r.valid_to = none ∧ r.tenant_id = tenant := by
  simp [supersedes, and_assoc]

/-- Only a live row of the table before can be retired, the fresh row being another. -/
theorem mem_old_of_supersedes {old : AssertionId} {r : AssertionRow}
    (hne : old ≠ assertion_id deps.uuid g) (hs : supersedes tenant old r = true)
    (hr : r ∈ insertNew AssertionRow.id (fresh_row deps tenant clock g) db.assertions) :
    r ∈ db.assertions := by
  rcases mem_insertNew.mp hr with hr | ⟨rfl, -⟩
  · exact hr
  · exact absurd (supersedes_iff.mp hs).1.symm hne

/-- The supersession a landing apply makes passes the checks. -/
theorem Lands.checked (hl : Lands deps tenant clock g db) (hwf : Wf deps.uuid db) {old : AssertionId}
    (hret : retires g = some old) :
    ∀ r ∈ insertNew AssertionRow.id (fresh_row deps tenant clock g) db.assertions,
      supersedes tenant old r = true →
        (r.retire clock.applied_at (assertion_id deps.uuid g)).violated = none := by
  obtain ⟨hne, q, hq, hqs, hqv⟩ := hl.target old hret
  intro r hr hs
  have hrold := mem_old_of_supersedes hne hs hr
  obtain rfl := hwf.eq_of_id hrold hq
    ((supersedes_iff.mp hs).1.trans (supersedes_iff.mp hqs).1.symm)
  obtain ⟨hconf, hrisk, hcount, -, -⟩ := AssertionRow.violated_eq_none.mp (hwf.checked r hrold)
  refine AssertionRow.violated_eq_none.mpr ⟨hconf, hrisk, hcount, ?_, ?_⟩
  · simpa [AssertionRow.retire] using hqv
  · simpa [AssertionRow.retire, (supersedes_iff.mp hs).1] using hne.symm

/-- What a landing apply leaves is well formed. -/
theorem Wf.landed (hwf : Wf deps.uuid db) (hl : Lands deps tenant clock g db) :
    Wf deps.uuid (GuardMem.landed deps tenant trace clock g db) := by
  obtain ⟨prepared, hp⟩ : ∃ p, prepare deps tenant clock.now [fresh deps.uuid clock.recorded_at g] =
    some p := ⟨_, if_neg (List.cons_ne_nil _ _)⟩
  have hwritten := hwf.write_in hp ((write_in_fresh hp).mpr ⟨hl.own, rfl⟩)
  cases hr : retires g with
  | none =>
      refine hwritten.of_tables ?_ rfl rfl
      simp [GuardMem.landed, landed_assertions, hr]
  | some old =>
      obtain ⟨hne, q, hq, hqs, -⟩ := hl.target old hr
      have hnew : assertion_id deps.uuid g ∈ (insertNew AssertionRow.id (fresh_row deps tenant clock g)
          db.assertions).map AssertionRow.id :=
        key_mem_insertNew (x := fresh_row deps tenant clock g)
      refine (hwritten.supersede_in (supersede_in_ok.mpr
        ⟨⟨q, mem_insertNew_of_mem hq, hqs⟩, hl.checked hwf hr, hnew, rfl⟩)).of_tables ?_ rfl rfl
      simp [GuardMem.landed, landed_assertions, hr]

/-- CORRECT: a writing apply commits if and only if it lands, and then does what `landed` says. -/
theorem apply_writes_ok (hwf : Wf deps.uuid db) (hw : refusal g = none) {o : Applied} :
    apply deps tenant trace clock g db = .ok (o, db') ↔
      Lands deps tenant clock g db ∧ o = landed_outcome deps g ∧
        db' = landed deps tenant trace clock g db := by
  rw [apply_body_ok hw]
  constructor
  · rintro ⟨hown, htarget, ho, hdb, -⟩
    refine ⟨⟨hw, hown, fun old hret => ?_⟩, ho, hdb⟩
    obtain ⟨⟨r, hr, hs⟩, hchk⟩ := htarget old hret
    obtain ⟨-, -, -, hvalid, hself⟩ := AssertionRow.violated_eq_none.mp (hchk r hr hs)
    have hid := (supersedes_iff.mp hs).1
    have hne : old ≠ assertion_id deps.uuid g := by
      rintro rfl
      exact hself (by simp [AssertionRow.retire, hid])
    exact ⟨hne, r, mem_old_of_supersedes hne hs hr, hs, hvalid _ rfl⟩
  · rintro ⟨hl, ho, rfl⟩
    refine ⟨hl.own, fun old hret => ?_, ho, rfl, (hwf.landed hl).commits⟩
    obtain ⟨-, q, hq, hqs, -⟩ := hl.target old hret
    exact ⟨⟨q, mem_insertNew_of_mem hq, hqs⟩, hl.checked hwf hret⟩

/-- Every apply keeps the database well formed. -/
theorem Wf.apply (hwf : Wf deps.uuid db) {o : Applied}
    (h : GuardMem.apply deps tenant trace clock g db = .ok (o, db')) : Wf deps.uuid db' := by
  cases hw : refusal g with
  | some reason =>
      rw [apply_refused hw] at h
      obtain ⟨-, rfl⟩ := Prod.mk.inj (Except.ok.inj h)
      exact hwf.append_decision
  | none =>
      obtain ⟨hl, -, rfl⟩ := (apply_writes_ok hwf hw).mp h
      exact hwf.landed hl

/-- Naming an incumbent that is no longer live loses the race: the whole transaction raises. -/
theorem apply_lost {old : AssertionId} (hw : refusal g = none) (hret : retires g = some old)
    (hown : assertion_id deps.uuid g ∉ db.ids ∨ db.sees tenant (assertion_id deps.uuid g))
    (hold : old ∈ db.ids) (hdead : ∀ r ∈ db.assertions, supersedes tenant old r = false) :
    apply deps tenant trace clock g db =
      .error (.ConcurrencyConflict (conflict_message tenant old)) := by
  obtain ⟨prepared, hp⟩ : ∃ p, prepare deps tenant clock.now [fresh deps.uuid clock.recorded_at g] =
    some p := ⟨_, if_neg (List.cons_ne_nil _ _)⟩
  have hmiss : ∀ r ∈ insertNew AssertionRow.id (fresh_row deps tenant clock g) db.assertions,
      supersedes tenant old r = false := by
    intro r hr
    rcases mem_insertNew.mp hr with hr | ⟨rfl, hnew⟩
    · exact hdead r hr
    · refine Bool.eq_false_iff.mpr fun hs => hnew ?_
      exact (supersedes_iff.mp hs).1 ▸ hold
  have hnone : (insertNew AssertionRow.id (fresh_row deps tenant clock g) db.assertions).filter
      (supersedes tenant old) = [] := List.filter_eq_nil_iff.mpr fun r hr => by simp [hmiss r hr]
  simp only [apply, hw, Option.isSome_none, Bool.false_eq_true, if_false, Option.bind_some, hp,
    transaction]
  have hown' : assertion_id deps.uuid g ∉
      (append_decision deps g.record tenant trace clock.applied_at db).ids ∨
      (append_decision deps g.record tenant trace clock.applied_at db).sees tenant
        (assertion_id deps.uuid g) := hown
  rw [(write_in_fresh hp).mpr ⟨hown', rfl⟩]
  simp [hret, supersede_in, SUPERSEDE, fresh, hnone, check, require, bind, Except.bind,
    append_decision]

/-- Applying a list in two halves. -/
theorem apply_all_append {xs ys : List (GovernedCandidate × ApplyClock)} :
    apply_all deps tenant trace (xs ++ ys) db =
      let first := apply_all deps tenant trace xs db
      let second := apply_all deps tenant trace ys first.2.2
      (first.1 ++ second.1, first.2.1 ++ second.2.1, second.2.2) := by
  induction xs generalizing db with
  | nil => rfl
  | cons x xs ih =>
      simp only [List.cons_append, apply_all]
      split <;> simp [ih]

/-- A failed apply changes nothing for the ones after it. -/
theorem apply_all_failed {item : GovernedCandidate × ApplyClock} {exc : Exc}
    {pre post : List (GovernedCandidate × ApplyClock)}
    (h : apply deps tenant trace item.2 item.1 (apply_all deps tenant trace pre db).2.2 =
      .error exc) :
    (apply_all deps tenant trace (pre ++ item :: post) db).1 =
        (apply_all deps tenant trace (pre ++ post) db).1 ∧
      (apply_all deps tenant trace (pre ++ item :: post) db).2.2 =
        (apply_all deps tenant trace (pre ++ post) db).2.2 ∧
      ⟨item.1.candidate.candidate_id, exc⟩ ∈
        (apply_all deps tenant trace (pre ++ item :: post) db).2.1 := by
  simp only [apply_all_append, apply_all, h, true_and]
  exact List.mem_append_right _ List.mem_cons_self

/-! ### The rows a landing apply leaves -/

/-- A row after a landing apply: one it left alone, the one it inserted, or the one it retired. -/
inductive LandedRow (deps : Deps) (tenant : TenantId) (clock : ApplyClock) (g : GovernedCandidate)
    (db : Db) : AssertionRow → Prop where
  | kept {r} (hr : r ∈ db.assertions) (hne : retires g ≠ some r.id) :
      LandedRow deps tenant clock g db r
  | fresh (hnew : assertion_id deps.uuid g ∉ db.ids) :
      LandedRow deps tenant clock g db (fresh_row deps tenant clock g)
  | retired {r} (hr : r ∈ db.assertions) (hret : retires g = some r.id) (hlive : r.valid_to = none)
      (ht : r.tenant_id = tenant) : LandedRow deps tenant clock g db
        (r.retire clock.applied_at (assertion_id deps.uuid g))

/-- The row a landing apply retires is the one under the id, and `SUPERSEDE` takes it. -/
theorem Lands.takes (hl : Lands deps tenant clock g db) (hwf : Wf deps.uuid db) {r : AssertionRow}
    (hr : r ∈ db.assertions) (hret : retires g = some r.id) : supersedes tenant r.id r = true := by
  obtain ⟨-, q, hq, hqs, -⟩ := hl.target r.id hret
  obtain rfl := hwf.eq_of_id hq hr (supersedes_iff.mp hqs).1
  exact hqs

theorem mem_landed (hwf : Wf deps.uuid db) (hl : Lands deps tenant clock g db) {r : AssertionRow} :
    r ∈ (landed deps tenant trace clock g db).assertions ↔ LandedRow deps tenant clock g db r := by
  have hinsert : ∀ {r}, r ∈ insertNew AssertionRow.id (fresh_row deps tenant clock g) db.assertions ↔
      r ∈ db.assertions ∨ (r = fresh_row deps tenant clock g ∧ assertion_id deps.uuid g ∉ db.ids) :=
    mem_insertNew
  simp only [landed, landed_assertions]
  cases hret : retires g with
  | none =>
      simp only [hinsert]
      constructor
      · rintro (hr | ⟨rfl, hnew⟩)
        · exact .kept hr (by simp [hret])
        · exact .fresh hnew
      · rintro (⟨hr, -⟩ | hnew | ⟨-, h, -, -⟩)
        · exact Or.inl hr
        · exact Or.inr ⟨rfl, hnew⟩
        · rw [hret] at h; cases h
  | some old =>
      have hne := (hl.target old hret).1
      simp only [mem_updateWhere]
      constructor
      · rintro ⟨r₀, hr₀, rfl⟩
        split
        · next hs =>
            obtain ⟨hid, hlive, ht⟩ := supersedes_iff.mp hs
            exact .retired (mem_old_of_supersedes hne hs hr₀) (hid ▸ hret) hlive ht
        · next hs =>
            rcases hinsert.mp hr₀ with hr₀ | ⟨rfl, hnew⟩
            · refine .kept hr₀ fun h => hs ?_
              rw [hret] at h
              exact Option.some.inj h ▸ hl.takes hwf hr₀ (hret.trans h)
            · exact .fresh hnew
      · rintro (⟨hr, hkept⟩ | hnew | ⟨hr, h, -, -⟩)
        · refine ⟨r, hinsert.mpr (Or.inl hr), if_neg fun hs => hkept ?_⟩
          rw [hret, (supersedes_iff.mp hs).1]
        · refine ⟨_, hinsert.mpr (Or.inr ⟨rfl, hnew⟩), if_neg fun hs => hne ?_⟩
          exact (supersedes_iff.mp hs).1.symm
        · next q =>
            refine ⟨q, hinsert.mpr (Or.inl hr), if_pos ?_⟩
            rw [hret] at h
            exact Option.some.inj h ▸ hl.takes hwf hr (hret.trans h)

end GuardMem
