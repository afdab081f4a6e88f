import GuardMem.Pipeline.PerCandidate
import GuardMem.Pipeline.SchemaGate

/-! The pipeline from the gate on: `orchestrator.run` over `per_candidate.score_candidate`.

    Layer 1 runs once for a submission, Layers 2 and 3 once for each candidate the gate admits, and what
    one candidate raises is its own. CORRECT: what is decided of a candidate is what the write path
    scores on the same numbers (`decide_one_scored`). -/

namespace GuardMem

/-- One submission, as far as governing reads it. -/
structure Proposal where
  trace_id : TraceId
  tenant_id : TenantId
  «namespace» : Namespace
  subject_hint : Option String := none

/-- What the models, the graph and the store came to while one candidate was scored: the entropy of its
    draws, how far its span entails it, the judge's reply, the subject's degree and the tables. -/
structure Answers where
  entropy : ℚ
  span_entailment : ℚ
  judgements : List Judgement
  degree : ℕ
  db : Db

variable (py : Python) (deps : Deps) (pack : Pack) (weights : ConfidenceWeights py) (betas : RiskBetas)

/-- What Layer 2 found of a candidate, and its two scores. -/
structure Assessment where
  spec : PredicateDecl
  subject_id : EntityId
  nearest : List ScoredAssertion
  conflict : ConflictReport
  confidence : ConfidenceReport
  risk : RiskVerdict

/-- Assemble the eight features of one candidate. -/
def risk_features (candidate : MemoryCandidate) (spec : PredicateDecl) (ns : Namespace)
    (kind : ConflictKind) (degree : ℕ) (nearest : List ScoredAssertion) : Except Exc RiskFeatures := do
  .ok { impact_declared := ← unit_field "impact_declared" (spec.impact.risk_feature py)
        mutation_type := ← unit_field "mutation_type" ((MutationType.from_conflict kind).risk_feature py)
        scope := ← unit_field "scope" ((scope_of_namespace ns).risk_feature py)
        graph_fanout := ← unit_field "graph_fanout" (graph_fanout py degree)
        pii_class := ← unit_field "pii_class" (spec.pii_class.risk_feature py)
        irreversibility := ← unit_field "irreversibility" spec.irreversibility.risk_feature
        source_tier_risk := ← unit_field "source_tier_risk"
          (source_tier_risk py candidate.provenance.source_tier)
        novelty := ← unit_field "novelty" (novelty py (nearest.head?.map fun hit => hit.cosine.1)) }

/-- `Ontology.predicate` over the pack, where the gate admits known predicates only. -/
def decl_of (predicate : String) : Except Exc PredicateDecl :=
  match pack predicate with
  | some spec => .ok spec
  | none => .error (.ValueError (predicate ++ " is not in the ontology"))

/-- The caller's own subject where it named one: `hints.subject or candidate.subject`. -/
def Proposal.hinted (proposal : Proposal) (candidate : MemoryCandidate) : String :=
  match proposal.subject_hint with
  | some hint => if hint = "" then candidate.subject else hint
  | none => candidate.subject

/-- Layers 2 and 3 up to the decision. -/
def assess (proposal : Proposal) (verdict : GatedCandidate) (answers : Answers) :
    Except Exc Assessment := do
  let candidate := verdict.candidate
  let spec ← decl_of pack candidate.predicate
  let subject_id ← resolve deps (proposal.hinted candidate) proposal.tenant_id proposal.namespace
    spec.subject
  let nearest ← search deps proposal.tenant_id candidate.namespace subject_id candidate.predicate
    (deps.embedding candidate.predicate candidate.object) INCUMBENT_K answers.db
  let conflict ← detect candidate nearest spec.toPredicateSpec answers.judgements
  let confidence ← score_confidence py answers.entropy answers.span_entailment
    candidate.provenance.source_tier candidate.provenance.alignment.1 verdict.schema_fit 1 conflict weights
  let features ← risk_features py candidate spec proposal.namespace conflict.kind answers.degree nearest
  let risk ← score_impact py features spec.impact betas
  .ok ⟨spec, subject_id, nearest, conflict, confidence, risk⟩

/-- Decide one candidate. -/
def decide_one (proposal : Proposal) (verdict : GatedCandidate) (answers : Answers) :
    Except Exc GovernedCandidate := do
  let a ← assess py deps pack weights betas proposal verdict answers
  let record := decide a.confidence a.risk a.conflict deps.thresholds false
    (override_signals verdict.candidate a.spec.toPredicateSpec deps.policy_version a.conflict.kind)
  .ok ⟨verdict.candidate, a.subject_id, record, incumbent_of a.conflict a.nearest⟩

/-- Govern what Layer 1 extracted, where every call answers; one candidate's failure is its own. -/
def run_extracted (proposal : Proposal) (extracted : List MemoryCandidate)
    (answers : GatedCandidate → Answers) : List GovernedCandidate × List CandidateFailure :=
  let scored := (gate py deps.casefold extracted pack).admitted.map fun v =>
    (v.candidate.candidate_id, decide_one py deps pack weights betas proposal v (answers v))
  (scored.filterMap fun s => s.2.toOption,
   scored.filterMap fun s => match s.2 with
    | .ok _ => none
    | .error exc => some ⟨s.1, exc⟩)

/-! ### One submission, whatever fails -/

/-- How a call out of a job ends: it answers, it raises, or the job is cancelled under it. -/
inductive Call (α : Type) where
  | answers (a : α)
  | raises (exc : Exc)
  | cancelled

/-- Do something with the answer, if there is one. -/
def Call.map {α β : Type} (f : α → β) : Call α → Call β
  | .answers a => .answers (f a)
  | .raises exc => .raises exc
  | .cancelled => .cancelled

/-- `try … except Exception` around a call: what it raises is a value, a cancellation goes through. -/
def Call.caught {α β : Type} (f : α → Except Exc β) : Call α → Option (Except Exc β)
  | .answers a => some (f a)
  | .raises exc => some (.error exc)
  | .cancelled => none

/-- What Layer 1 makes of a submission. The extractor numbers its candidates. -/
structure Extraction where
  candidates : List MemoryCandidate
  dropped_noise : ℕ
  dropped_unsourced : ℕ
  numbered : (candidates.map MemoryCandidate.candidate_id).Nodup

/-- What one proposal produced. -/
structure PipelineResult where
  trace_id : TraceId
  governed : List GovernedCandidate
  quarantined : List CandidateId
  rejected : List CandidateId
  dropped_noise : ℕ
  dropped_unsourced : ℕ

def GatedCandidate.id (v : GatedCandidate) : CandidateId := v.candidate.candidate_id

/-- Score one admitted candidate, given how its calls end. -/
def score (proposal : Proposal) (scoring : CandidateId → Call Answers) (v : GatedCandidate) :
    Option (Except Exc GovernedCandidate) :=
  (scoring v.id).caught (decide_one py deps pack weights betas proposal v)

/-- The candidate and its decision, where it got one. -/
def governed_of : Option (Except Exc GovernedCandidate) → Option GovernedCandidate
  | some (.ok g) => some g
  | _ => none

/-- The failure of a candidate that got none. -/
def failure_of (id : CandidateId) : Option (Except Exc GovernedCandidate) → Option CandidateFailure
  | some (.error exc) => some ⟨id, exc⟩
  | _ => none

@[simp] theorem governed_of_ok {g : GovernedCandidate} : governed_of (some (.ok g)) = some g := rfl
@[simp] theorem governed_of_error {exc : Exc} : governed_of (some (.error exc)) = none := rfl
@[simp] theorem failure_of_ok {id : CandidateId} {g : GovernedCandidate} :
    failure_of id (some (.ok g)) = none := rfl
@[simp] theorem failure_of_error {id : CandidateId} {exc : Exc} :
    failure_of id (some (.error exc)) = some ⟨id, exc⟩ := rfl

/-- Govern one submission, end to end. Nothing is written. -/
def Orchestrator.run (proposal : Proposal) (layer1 : Call Extraction)
    (scoring : CandidateId → Call Answers) :
    Call (PipelineResult × List CandidateFailure) :=
  match layer1 with
  | .raises exc => .raises exc
  | .cancelled => .cancelled
  | .answers extracted =>
      let result := gate py deps.casefold extracted.candidates pack
      let score := score py deps pack weights betas proposal scoring
      if result.admitted.any fun v => (score v).isNone then .cancelled
      else .answers
        ({ trace_id := proposal.trace_id
           governed := result.admitted.filterMap fun v => governed_of (score v)
           quarantined := result.quarantined.map GatedCandidate.id
           rejected := result.rejected.map GatedCandidate.id
           dropped_noise := extracted.dropped_noise
           dropped_unsourced := extracted.dropped_unsourced },
         result.admitted.filterMap fun v => failure_of v.id (score v))

variable {py deps pack weights betas} {proposal : Proposal} {scoring : CandidateId → Call Answers}

theorem score_eq_none {v : GatedCandidate} :
    score py deps pack weights betas proposal scoring v = none ↔ scoring v.id = .cancelled := by
  unfold score
  cases scoring v.id <;> simp [Call.caught]

/-- A cancellation anywhere cancels the run. -/
theorem run_cancelled {extracted : Extraction}
    (h : ∃ v ∈ (gate py deps.casefold extracted.candidates pack).admitted, scoring v.id = .cancelled) :
    Orchestrator.run py deps pack weights betas proposal (.answers extracted) scoring = .cancelled := by
  obtain ⟨v, hv, hcancelled⟩ := h
  refine if_pos (List.any_eq_true.mpr ⟨v, hv, ?_⟩)
  rw [score_eq_none.mpr hcancelled]
  rfl

/-- Without one, every admitted candidate is governed or has failed. -/
theorem run_scored {extracted : Extraction}
    (h : ∀ v ∈ (gate py deps.casefold extracted.candidates pack).admitted, scoring v.id ≠ .cancelled) :
    ∃ result, Orchestrator.run py deps pack weights betas proposal (.answers extracted) scoring =
        .answers (result,
        (gate py deps.casefold extracted.candidates pack).admitted.filterMap fun v =>
          failure_of v.id (score py deps pack weights betas proposal scoring v)) ∧
      result.governed = (gate py deps.casefold extracted.candidates pack).admitted.filterMap fun v =>
        governed_of (score py deps pack weights betas proposal scoring v) := by
  refine ⟨_, if_neg fun hany => ?_, rfl⟩
  obtain ⟨v, hv, hnone⟩ := List.any_eq_true.mp hany
  exact h v hv (score_eq_none.mp (Option.isNone_iff_eq_none.mp hnone))

/-- What a run that answers reports: each list is the verdicts of the candidates, in their order. -/
theorem run_reports {extracted : Extraction} {result : PipelineResult} {failures : List CandidateFailure}
    (h : Orchestrator.run py deps pack weights betas proposal (.answers extracted) scoring =
      .answers (result, failures)) :
    (∀ v ∈ (gate py deps.casefold extracted.candidates pack).admitted,
      score py deps pack weights betas proposal scoring v ≠ none) ∧
    result =
      { trace_id := proposal.trace_id
        governed := (gate py deps.casefold extracted.candidates pack).admitted.filterMap fun v =>
          governed_of (score py deps pack weights betas proposal scoring v)
        quarantined := (gate py deps.casefold extracted.candidates pack).quarantined.map GatedCandidate.id
        rejected := (gate py deps.casefold extracted.candidates pack).rejected.map GatedCandidate.id
        dropped_noise := extracted.dropped_noise
        dropped_unsourced := extracted.dropped_unsourced } ∧
    failures = (gate py deps.casefold extracted.candidates pack).admitted.filterMap fun v =>
      failure_of v.id (score py deps pack weights betas proposal scoring v) := by
  simp only [Orchestrator.run] at h
  split at h
  · cases h
  · next hnone =>
      obtain ⟨hresult, hfailures⟩ := Prod.mk.inj (Call.answers.inj h)
      refine ⟨fun v hv hscore => hnone (List.any_eq_true.mpr ⟨v, hv, ?_⟩), hresult.symm, hfailures.symm⟩
      rw [hscore]
      rfl

variable {verdict : GatedCandidate}
  {answers : Answers} {a : Assessment} {g : GovernedCandidate}

/-- A decision is about the candidate it was computed from. -/
theorem score_pairs (h : score py deps pack weights betas proposal scoring verdict = some (.ok g)) :
    g.candidate = verdict.candidate := by
  unfold score at h
  cases hcall : scoring verdict.id with
  | cancelled => simp [hcall, Call.caught] at h
  | raises exc => simp [hcall, Call.caught] at h
  | answers a =>
      rw [hcall] at h
      obtain ⟨_, -, hg⟩ := bind_ok.mp (Option.some.inj h)
      obtain rfl := Except.ok.inj hg
      rfl

theorem decl_of_ok {predicate : String} {spec : PredicateDecl} :
    decl_of pack predicate = .ok spec ↔ pack predicate = some spec := by
  unfold decl_of
  cases pack predicate <;> simp

/-- A namespace binds its entity whatever name the subject goes by. -/
theorem resolve_subject {s s' : String} {tenant : TenantId} {ns : Namespace} {expected : String}
    {sid : EntityId} (h : resolve deps s tenant ns expected = .ok sid) :
    resolve deps s' tenant ns expected = .ok sid := by
  unfold resolve at h ⊢
  split at h
  · exact absurd h (by simp)
  · split at h
    · exact absurd h (by simp)
    · next hfold => rw [if_neg hfold]; exact h

/-- What an assessment rests on. -/
theorem assess_ok (h : assess py deps pack weights betas proposal verdict answers = .ok a) :
    pack verdict.candidate.predicate = some a.spec ∧ a.confidence.corroboration.1 = 0 ∧
      a.risk.impact_level = a.spec.impact ∧ a.risk.obligations = [] := by
  simp only [assess, bind_ok, Except.ok.injEq] at h
  obtain ⟨spec, hspec, _, -, _, -, _, -, conf, hconf, _, -, risk, hrisk, rfl⟩ := h
  have hpack := decl_of_ok.mp hspec
  exact ⟨hpack, score_confidence_corroboration hconf, score_impact_level hrisk⟩

/-- CORRECT: what the write path scores is what the pipeline decides, on the scores it computed. -/
theorem decide_one_scored (h : decide_one py deps pack weights betas proposal verdict answers = .ok g)
    (hns : verdict.candidate.namespace = proposal.namespace) :
    ∃ reply, score_candidate
      { deps with ontology := fun predicate => (pack predicate).map PredicateDecl.toPredicateSpec }
      proposal.tenant_id verdict.candidate reply answers.db = .ok g := by
  simp only [decide_one, bind_ok, Except.ok.injEq] at h
  obtain ⟨a, ha, rfl⟩ := h
  obtain ⟨hspec, -, himpact, hobligations⟩ := assess_ok ha
  simp only [assess, bind_ok, Except.ok.injEq] at ha
  obtain ⟨spec, -, sid, hresolve, nearest, hsearch, conflict, hdetect, conf, -, _, -, risk, -, rfl⟩ := ha
  refine ⟨⟨answers.judgements, conf, risk.risk, risk.features⟩, ?_⟩
  have hrisk : ⟨spec.impact, risk.risk, risk.features, [], by simp⟩ = risk := by
    obtain ⟨level, score, features, obligations, hknown⟩ := risk
    obtain rfl : level = spec.impact := himpact
    obtain rfl : obligations = [] := hobligations
    rfl
  rw [← hns] at hresolve
  simp only [score_candidate, bind_ok, Except.ok.injEq]
  refine ⟨spec.toPredicateSpec, ?_, sid, resolve_subject hresolve, nearest, hsearch, conflict, hdetect, ?_⟩
  · simp [spec_of, hspec]
  · simp only [hrisk]

theorem mem_run_extracted {extracted : List MemoryCandidate} {replies : GatedCandidate → Answers} :
    g ∈ (run_extracted py deps pack weights betas proposal extracted replies).1 ↔
      ∃ v ∈ (gate py deps.casefold extracted pack).admitted,
        decide_one py deps pack weights betas proposal v (replies v) = .ok g := by
  simp only [run_extracted, List.mem_filterMap, List.mem_map]
  constructor
  · rintro ⟨_, ⟨v, hv, rfl⟩, hg⟩
    refine ⟨v, hv, ?_⟩
    cases hd : decide_one py deps pack weights betas proposal v (replies v) <;>
      simp_all [Except.toOption]
  · rintro ⟨v, hv, hd⟩
    exact ⟨_, ⟨v, hv, rfl⟩, by rw [hd]; rfl⟩

/-- Where every call answers, a submission is governed as extracted. -/
theorem run_answers {extracted : Extraction} {replies : CandidateId → Answers} :
    ∃ result, Orchestrator.run py deps pack weights betas proposal (.answers extracted)
          (fun id => .answers (replies id)) =
        .answers (result, (run_extracted py deps pack weights betas proposal extracted.candidates
          fun v => replies v.id).2) ∧
      result.governed = (run_extracted py deps pack weights betas proposal extracted.candidates
        fun v => replies v.id).1 := by
  obtain ⟨result, hrun, hgoverned⟩ := @run_scored py deps pack weights betas proposal
    (fun id => .answers (replies id)) extracted (by simp)
  refine ⟨result, hrun.trans (congrArg Call.answers (Prod.ext rfl ?_)), hgoverned.trans ?_⟩
  · simp only [run_extracted, List.filterMap_map]
    refine congrArg (List.filterMap · _) (funext fun v => ?_)
    simp only [Function.comp_apply, score, Call.caught]
    cases decide_one py deps pack weights betas proposal v (replies v.id) <;> rfl
  · simp only [run_extracted, List.filterMap_map]
    refine congrArg (List.filterMap · _) (funext fun v => ?_)
    simp only [Function.comp_apply, score, Call.caught]
    cases decide_one py deps pack weights betas proposal v (replies v.id) <;> rfl

/-- The gate keeps a candidate's id. -/
@[simp] theorem judge_id {casefold : String → String} (c : MemoryCandidate) :
    (judge py casefold c pack).id = c.candidate_id := by
  unfold judge GatedCandidate.id
  split
  · rfl
  · split <;> rfl

/-- CORRECT: the gate keeps the extractor's numbering. -/
theorem admitted_nodup (extracted : Extraction) :
    ((gate py deps.casefold extracted.candidates pack).admitted.map GatedCandidate.id).Nodup := by
  have hids : (extracted.candidates.map fun c => judge py deps.casefold c pack).map GatedCandidate.id =
      extracted.candidates.map MemoryCandidate.candidate_id := by
    simp
  refine List.Nodup.sublist (List.Sublist.map _ List.filter_sublist) ?_
  rw [hids]
  exact extracted.numbered

end GuardMem
