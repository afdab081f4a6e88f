import GuardMem.Memory.Applier
import GuardMem.Pipeline.Orchestrator

/-! Which of the program's own errors a retry could help.

    CORRECT: nothing the pipeline works out for itself is such an error (`decide_one_permanent`), and an
    apply raises one exactly where the incumbent it retires is no longer there to retire
    (`apply_transient`). -/

namespace GuardMem

open Lib.Table

/-- The computation raises an error that is marked as worth a retry. -/
def Transient {α : Type} (x : Except Exc α) : Prop := ∃ exc, x = .error exc ∧ exc.retryable = true

@[simp] theorem transient_ok {α : Type} {a : α} : ¬ Transient (.ok a) := by
  rintro ⟨_, h, -⟩
  cases h

@[simp] theorem transient_error {α : Type} {exc : Exc} :
    Transient (.error exc : Except Exc α) ↔ exc.retryable = true := by
  simp [Transient]

@[simp] theorem transient_bind {α β : Type} {x : Except Exc α} {f : α → Except Exc β} :
    Transient (x >>= f) ↔ Transient x ∨ ∃ a, x = .ok a ∧ Transient (f a) := by
  cases x with
  | error e => simp [Transient, bind, Except.bind]
  | ok a => simp [bind, Except.bind]

@[simp] theorem transient_require {p : Prop} [Decidable p] {exc : Exc} :
    Transient (require p exc) ↔ ¬ p ∧ exc.retryable = true := by
  unfold require
  split <;> simp [*]

@[simp] theorem transient_check {v : Option String} : ¬ Transient (check v) := by
  cases v <;> simp [check, Exc.retryable]

theorem collect_permanent {α β : Type} {f : α → Except Exc β} (hf : ∀ x, ¬ Transient (f x)) :
    ∀ xs : List α, ¬ Transient (collect f xs)
  | [] => transient_ok
  | x :: xs => by
      have ih := collect_permanent hf xs
      simp [collect, hf x, ih]

theorem executemany_permanent {α : Type} {statement : α → Db → Except Exc Db}
    (hs : ∀ x db, ¬ Transient (statement x db)) :
    ∀ (xs : List α) (db : Db), ¬ Transient (executemany statement xs db)
  | [], _ => transient_ok
  | x :: xs, db => by
      have ih := executemany_permanent hs xs
      simp [executemany, hs x db, ih]

/-! ### The pipeline's -/

variable {py : Python} {deps : Deps} {pack : Pack} {weights : ConfidenceWeights py} {betas : RiskBetas}

@[simp] theorem unit_field_permanent {name : String} {x : ℚ} : ¬ Transient (unit_field name x) := by
  unfold unit_field
  split <;> simp [Exc.retryable]

@[simp] theorem resolve_permanent {s : String} {tenant : TenantId} {ns : Namespace} {expected : String} :
    ¬ Transient (resolve deps s tenant ns expected) := by
  unfold resolve
  split
  · simp [Exc.retryable]
  · split <;> simp [Exc.retryable]

theorem provenance_from_row_permanent (row : ProvenanceRow) : ¬ Transient (provenance_from_row row) := by
  unfold provenance_from_row
  split
  · simp [Exc.retryable]
  · split_ifs <;> simp [Exc.retryable]

@[simp] theorem assertion_from_row_permanent {row : AssertionRow} {ps : List Provenance} :
    ¬ Transient (assertion_from_row row ps) := by
  unfold assertion_from_row
  split
  · simp [Exc.retryable]
  · split_ifs <;> simp [Exc.retryable]

@[simp] theorem search_permanent {tenant : TenantId} {ns : Namespace} {sid : EntityId}
    {predicate : String} {vector : List ℚ} {k : ℕ} {db : Db} :
    ¬ Transient (search deps tenant ns sid predicate vector k db) := by
  refine collect_permanent (fun row => ?_) _
  have hcitations := collect_permanent provenance_from_row_permanent (SELECT_PROVENANCE row.id db)
  simp [hydrate, fetch_citations, hcitations]

@[simp] theorem detect_permanent {candidate : MemoryCandidate} {incumbents : List ScoredAssertion}
    {spec : PredicateSpec} {judgements : List Judgement} :
    ¬ Transient (detect candidate incumbents spec judgements) := by
  have hadjudicate : ¬ Transient (adjudicate candidate incumbents judgements) := by
    unfold adjudicate
    split
    · simp [Exc.retryable]
    · dsimp only
      split <;> simp [Exc.retryable]
  unfold detect
  split
  · exact transient_ok
  · split
    · exact transient_ok
    · exact transient_ok
    · exact hadjudicate

@[simp] theorem score_confidence_permanent {entropy entailment : ℚ} {tier : SourceTier}
    {alignment fit : ℚ} {sources : ℕ} {conflict : ConflictReport} :
    ¬ Transient (score_confidence py entropy entailment tier alignment fit sources conflict weights) := by
  have hcorroboration : ¬ Transient (corroboration py sources) := by
    unfold corroboration
    split <;> simp [Exc.retryable]
  simp [score_confidence, hcorroboration]

/-- CORRECT: given what the models and the stores answered, deciding raises nothing a retry could help. -/
theorem decide_one_permanent {proposal : Proposal} {verdict : GatedCandidate} {answers : Answers} :
    ¬ Transient (decide_one py deps pack weights betas proposal verdict answers) := by
  have hdecl : ¬ Transient (decl_of pack verdict.candidate.predicate) := by
    unfold decl_of
    split <;> simp [Exc.retryable]
  simp [decide_one, assess, risk_features, score_impact, hdecl]

/-! ### The applier's -/

variable {tenant : TenantId} {trace : TraceId} {clock : ApplyClock} {g : GovernedCandidate} {db : Db}

@[simp] theorem write_in_permanent {prepared : PreparedWrite} :
    ¬ Transient (write_in deps tenant prepared db) := by
  have hassertion : ∀ row db, ¬ Transient (INSERT_ASSERTION deps.uuid tenant row db) := fun row db => by
    simp [INSERT_ASSERTION, Exc.retryable]
  have hprovenance : ∀ row db, ¬ Transient (INSERT_PROVENANCE tenant row db) := fun row db => by
    simp [INSERT_PROVENANCE, Exc.retryable]
  have houtbox : ∀ row db, ¬ Transient (INSERT_OUTBOX row db) := fun row db => by
    simp [INSERT_OUTBOX, Exc.retryable]
  simp [write_in, executemany_permanent hassertion, executemany_permanent hprovenance,
    executemany_permanent houtbox]

/-- A supersession is worth a retry exactly where it finds nothing to retire. -/
@[simp] theorem supersede_in_transient {old new : AssertionId} {t : Time} :
    Transient (supersede_in tenant old new t db) ↔
      ∀ r ∈ db.assertions, supersedes tenant old r = false := by
  have hstatement : ¬ Transient (SUPERSEDE tenant t new old db) := by
    simp [SUPERSEDE, Exc.retryable]
  simp only [supersede_in, transient_bind, hstatement, false_or, Prod.exists, transient_require,
    not_not, transient_ok, and_false, exists_false, or_false, SUPERSEDE_ok]
  constructor
  · rintro ⟨n, d, ⟨-, -, hn, -⟩, rfl, -⟩
    simpa using List.length_eq_zero_iff.mp hn
  · intro hnone
    have hnil : db.assertions.filter (supersedes tenant old) = [] :=
      List.filter_eq_nil_iff.mpr fun r hr => by simp [hnone r hr]
    refine ⟨0, _, ⟨fun r hr hs => ?_, Or.inl hnil, by rw [hnil]; rfl, rfl⟩, rfl, rfl⟩
    rw [hnone r hr] at hs
    cases hs

@[simp] theorem transaction_transient {α : Type} {body : Db → Except Exc (α × Db)} :
    Transient (transaction body db) ↔ Transient (body db) := by
  rw [transaction, transient_bind, or_iff_left]
  rintro ⟨⟨a, after⟩, -, h⟩
  dsimp only at h
  split at h
  · simp [Exc.retryable] at h
  · exact transient_ok h

/-- The incumbent a writing apply retires is not live in its tenant any more. -/
def Outrun (deps : Deps) (tenant : TenantId) (clock : ApplyClock) (g : GovernedCandidate) (db : Db) : Prop :=
  refusal g = none ∧
    (assertion_id deps.uuid g ∉ db.ids ∨ db.sees tenant (assertion_id deps.uuid g)) ∧
    ∃ old ∈ retires g, ∀ r ∈ insertNew AssertionRow.id (fresh_row deps tenant clock g) db.assertions,
      supersedes tenant old r = false

/-- CORRECT: an apply is worth a retry exactly where it was outrun. -/
theorem apply_transient :
    Transient (apply deps tenant trace clock g db) ↔ Outrun deps tenant clock g db := by
  cases hw : refusal g with
  | some reason => simp [apply_refused hw, Outrun, hw]
  | none =>
      obtain ⟨prepared, hp⟩ : ∃ p, prepare deps tenant clock.now [fresh deps.uuid clock.recorded_at g] =
        some p := ⟨_, if_neg (List.cons_ne_nil _ _)⟩
      simp only [apply, hw, Option.isSome_none, Bool.false_eq_true, if_false, Option.bind_some, hp,
        transaction_transient, transient_bind, write_in_permanent, false_or, write_in_fresh hp,
        Outrun, true_and]
      cases hr : retires g with
      | none => simp
      | some old => simp [append_decision, append, Db.sees, Db.ids, fresh_row]

end GuardMem
