import GuardMem.Schemas.Base

/-! What the ontology declares about a predicate, and the three verdicts about a candidate.

    An out-of-range probability cannot be built: the unit-interval fields carry their bound. -/

namespace GuardMem

/-- How many live values a predicate may hold at once. -/
inductive Cardinality where
  | ONE
  | MANY
  | ONE_PER_TIME
  deriving DecidableEq

/-- Declared blast radius of a predicate. -/
inductive ImpactLevel where
  | LOW
  | MEDIUM
  | HIGH
  | CRITICAL
  deriving DecidableEq

def ImpactLevel.value : ImpactLevel → String
  | .LOW => "low"
  | .MEDIUM => "medium"
  | .HIGH => "high"
  | .CRITICAL => "critical"

/-- The fields of one ontology entry that conflict detection and the overrides read. -/
structure PredicateSpec where
  subject : String
  cardinality : Cardinality
  impact : ImpactLevel
  requires_corroboration : Bool := false
  deriving DecidableEq

/-- The pack's vocabulary: `Ontology.predicate`. -/
abbrev Ontology := String → Option PredicateSpec

inductive ObligationKind where
  | REQUIRE_REVIEW
  | REQUIRE_CORROBORATION
  | REDACT_FIELD
  deriving DecidableEq

def ObligationKind.value : ObligationKind → String
  | .REQUIRE_REVIEW => "require_review"
  | .REQUIRE_CORROBORATION => "require_corroboration"
  | .REDACT_FIELD => "redact_field"

/-- What Layer 2 found when it compared a candidate with its incumbents. -/
inductive ConflictKind where
  | NONE
  | DUPLICATE
  | REFINEMENT
  | CONTRADICTION
  | CARDINALITY
  | TEMPORAL_OVERLAP
  deriving DecidableEq

def ConflictKind.value : ConflictKind → String
  | .NONE => "none"
  | .DUPLICATE => "duplicate"
  | .REFINEMENT => "refinement"
  | .CONTRADICTION => "contradiction"
  | .CARDINALITY => "cardinality"
  | .TEMPORAL_OVERLAP => "temporal_overlap"

/-- The four outcomes: exactly one per candidate. -/
inductive Decision where
  | AUTO_WRITE
  | HITL_REVIEW
  | REJECT
  | ESCALATE
  deriving DecidableEq

def Decision.value : Decision → String
  | .AUTO_WRITE => "auto_write"
  | .HITL_REVIEW => "hitl_review"
  | .REJECT => "reject"
  | .ESCALATE => "escalate"

/-- `Literal["merge", "supersede", "coexist", "escalate"]`. -/
inductive Hint where
  | merge
  | supersede
  | coexist
  | escalate
  deriving DecidableEq

def Hint.value : Hint → String
  | .merge => "merge"
  | .supersede => "supersede"
  | .coexist => "coexist"
  | .escalate => "escalate"

/-- Layer 2's verdict on a candidate against live memory. -/
structure ConflictReport where
  kind : ConflictKind
  incumbent_assertion_id : Option AssertionId
  entailment : UnitFloat
  contradiction : UnitFloat
  cosine : Cosine
  resolution_hint : Hint
  deriving DecidableEq

/-- The five terms of the confidence composite and their result. -/
structure ConfidenceReport where
  semantic_entropy : UnitFloat
  grounding : UnitFloat
  schema_fit : UnitFloat
  corroboration : UnitFloat
  consistency : UnitFloat
  confidence : UnitFloat
  weights_version : String
  deriving DecidableEq

/-- Blast radius, a separate axis from confidence. -/
structure RiskVerdict where
  impact_level : ImpactLevel
  risk : UnitFloat
  features : List (String × ℚ)
  obligations : List String
  obligations_known : ∀ o ∈ obligations,
    o ∈ [ObligationKind.REQUIRE_REVIEW, .REQUIRE_CORROBORATION, .REDACT_FIELD].map ObligationKind.value
  deriving DecidableEq

theorem RiskVerdict.unobliged : ∀ o ∈ ([] : List String),
    o ∈ [ObligationKind.REQUIRE_REVIEW, .REQUIRE_CORROBORATION, .REDACT_FIELD].map ObligationKind.value := by
  simp

/-- The five cut points the matrix reads, ordered. -/
structure Thresholds where
  tau_lo : UnitFloat
  tau_mid : UnitFloat
  tau_hi : UnitFloat
  rho_lo : UnitFloat
  rho_hi : UnitFloat
  version : String
  taus_ordered : tau_lo.1 < tau_mid.1 ∧ tau_mid.1 < tau_hi.1
  rhos_ordered : rho_lo.1 < rho_hi.1

/-- The full, replayable record of one decision. -/
structure DecisionRecord where
  decision : Decision
  reason_codes : List String
  confidence : ConfidenceReport
  risk : RiskVerdict
  conflict : ConflictReport
  thresholds_version : String
  policy_version : String
  escalated_from : Option Decision := none
  deriving DecidableEq

/-! ### `model_dump(mode="json")` -/

/-- A nullable string field. -/
def jsonOption : Option String → Json
  | none => .null
  | some s => .str s

def ConflictReport.model_dump (r : ConflictReport) : Json :=
  .obj <| .ofList
    [("kind", .str r.kind.value),
     ("incumbent_assertion_id", jsonOption r.incumbent_assertion_id),
     ("entailment", .num r.entailment.1),
     ("contradiction", .num r.contradiction.1),
     ("cosine", .num r.cosine.1),
     ("resolution_hint", .str r.resolution_hint.value)]

def ConfidenceReport.model_dump (r : ConfidenceReport) : Json :=
  .obj <| .ofList
    [("semantic_entropy", .num r.semantic_entropy.1),
     ("grounding", .num r.grounding.1),
     ("schema_fit", .num r.schema_fit.1),
     ("corroboration", .num r.corroboration.1),
     ("consistency", .num r.consistency.1),
     ("confidence", .num r.confidence.1),
     ("weights_version", .str r.weights_version)]

def RiskVerdict.model_dump (r : RiskVerdict) : Json :=
  .obj <| .ofList
    [("impact_level", .str r.impact_level.value),
     ("risk", .num r.risk.1),
     ("features", .obj <| .ofList <| r.features.map fun f => (f.1, .num f.2)),
     ("obligations", .arr <| .ofList <| r.obligations.map .str)]

def DecisionRecord.model_dump (r : DecisionRecord) : Json :=
  .obj <| .ofList
    [("decision", .str r.decision.value),
     ("reason_codes", .arr <| .ofList <| r.reason_codes.map .str),
     ("confidence", r.confidence.model_dump),
     ("risk", r.risk.model_dump),
     ("conflict", r.conflict.model_dump),
     ("thresholds_version", .str r.thresholds_version),
     ("policy_version", .str r.policy_version),
     ("escalated_from", jsonOption (r.escalated_from.map Decision.value))]

end GuardMem
