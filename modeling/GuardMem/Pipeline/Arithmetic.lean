import GuardMem.Pipeline.Region
import GuardMem.Pipeline.Scoring
import Mathlib.Analysis.SpecialFunctions.Exp

/-! Layer 3's two scores and its decision over any numbers.

    The same formulas with their arithmetic left open: the doubles of `Scoring` and `Decision` are one
    instance, step by step (`score_confidence_floats`, `score_impact_floats`, `decide_floats`), and the
    reals, where nothing is rounded, another (`exact`). -/

namespace GuardMem

/-! ### The decision -/

section

variable {K : Type} [LinearOrder K]

/-- The seven rules, from what they read of the reports. -/
def rules_of (impact_level : ImpactLevel) (obligations : List String) (hint : Hint)
    (signals : OverrideSignals) (already_escalated corroborated : Bool) :
    List (String × Bool × Decision) :=
  [("OVR_INJECTION_DETECTED", signals.injection_detected, .REJECT),
   ("OVR_WEB_SOURCE_HIGH_IMPACT",
     signals.source_tier == .RETRIEVED_WEB && (impact_level == .HIGH || impact_level == .CRITICAL),
     .HITL_REVIEW),
   ("OVR_CORROBORATION_REQUIRED", signals.requires_corroboration && !corroborated, .HITL_REVIEW),
   ("OVR_CONFLICT_HINT_ESCALATE", hint == .escalate,
     if already_escalated then .HITL_REVIEW else .ESCALATE),
   ("OVR_BUDGET_OR_CIRCUIT", signals.budget_exhausted || signals.circuit_open, .HITL_REVIEW),
   ("OVR_POLICY_REQUIRE_REVIEW", obligations.contains ObligationKind.REQUIRE_REVIEW.value, .HITL_REVIEW),
   ("OVR_CRITICAL_RETRACTION_STEP_UP",
     impact_level == .CRITICAL && signals.mutation == .RETRACT, .HITL_REVIEW)]

/-- The decision for a confidence, a corroboration and a risk; two sources corroborate to `cut`. -/
def decision_of (cut confidence corroboration risk : K) (t : Cuts K) (impact_level : ImpactLevel)
    (obligations : List String) (hint : Hint) (already_escalated : Bool) (signals : OverrideSignals) :
    Decision :=
  let corroborated : Bool := cut ≤ corroboration
  let cell := (from_matrix (t.confidence_band confidence) (t.risk_band risk) corroborated).1
  settle already_escalated ((rules_of impact_level obligations hint signals already_escalated
    corroborated).foldl apply_rule (cell, [])).1

/-- The matrix writes where risk is low, or middling with confidence and corroboration high. -/
theorem decision_of_auto {cut confidence corroboration risk : K} {t : Cuts K} {level : ImpactLevel}
    {obligations : List String} {hint : Hint} {esc : Bool} {signals : OverrideSignals} :
    decision_of cut confidence corroboration risk t level obligations hint esc signals = .AUTO_WRITE ↔
      ((t.tau_mid ≤ confidence ∧ risk < t.rho_lo) ∨
        (t.tau_hi ≤ confidence ∧ risk < t.rho_hi ∧ cut ≤ corroboration)) ∧
      ∀ rule ∈ rules_of level obligations hint signals esc (cut ≤ corroboration), rule.2.1 = false := by
  have hrules : ∀ rule ∈ rules_of level obligations hint signals esc (cut ≤ corroboration),
      rule.2.2 ≠ .AUTO_WRITE := by
    cases esc <;> simp [rules_of]
  rw [decision_of, settle_auto, foldl_apply_rule_auto hrules, from_matrix_auto, Cuts.confidence_band_mid,
    Cuts.confidence_band_hi, Cuts.risk_band_zero, Cuts.risk_band_one, decide_eq_true_eq]

end

/-! ### Numbers -/

/-- What an operation makes of its exact result, and the exponential. -/
structure Arithmetic (K : Type) where
  round : K → K
  exp : K → K

def Python.arithmetic (py : Python) : Arithmetic ℚ := ⟨py.round, py.exp⟩

/-- The reals: nothing is rounded. -/
noncomputable def exact : Arithmetic ℝ := ⟨id, Real.exp⟩

variable {K : Type} [Field K] [LinearOrder K]

/-- A number of the unit interval. -/
abbrev UnitOf (K : Type) [Field K] [LinearOrder K] := { x : K // 0 ≤ x ∧ x ≤ 1 }

def unit_of (name : String) (x : K) : Except Exc (UnitOf K) :=
  if h : 0 ≤ x ∧ x ≤ 1 then .ok ⟨x, h⟩ else .error (.ValidationError name)

/-- The eight features. -/
structure Features (K : Type) [Field K] [LinearOrder K] where
  impact_declared : UnitOf K
  mutation_type : UnitOf K
  scope : UnitOf K
  graph_fanout : UnitOf K
  pii_class : UnitOf K
  irreversibility : UnitOf K
  source_tier_risk : UnitOf K
  novelty : UnitOf K

/-- Their coefficients and the bias. -/
structure Betas (K : Type) where
  impact_declared : K
  mutation_type : K
  scope : K
  graph_fanout : K
  pii_class : K
  irreversibility : K
  source_tier_risk : K
  novelty : K
  bias : K

/-- The five terms of the confidence composite and their result. -/
structure Report (K : Type) [Field K] [LinearOrder K] where
  semantic_entropy : UnitOf K
  grounding : UnitOf K
  schema_fit : UnitOf K
  corroboration : UnitOf K
  consistency : UnitOf K
  confidence : UnitOf K

namespace Arithmetic

variable (A : Arithmetic K)

def add (a b : K) : K := A.round (a + b)
def sub (a b : K) : K := A.round (a - b)
def mul (a b : K) : K := A.round (a * b)
def div (a b : K) : K := A.round (a / b)

def grounding_multiplier : SourceTier → K
  | .TRUSTED_SYSTEM => 1
  | .VERIFIED_USER => A.round (95 / 100)
  | .UNVERIFIED_USER => A.round (8 / 10)
  | .TOOL_OUTPUT => A.round (85 / 100)
  | .RETRIEVED_WEB => A.round (6 / 10)

def risk_floor : ImpactLevel → K
  | .LOW => A.round (15 / 100)
  | .MEDIUM => A.round (35 / 100)
  | .HIGH => A.round (60 / 100)
  | .CRITICAL => A.round (80 / 100)

/-! ### Impact -/

def sigmoid (z : K) : K :=
  if 0 ≤ z then A.div 1 (A.add 1 (A.exp (-z)))
  else A.div (A.exp z) (A.add 1 (A.exp z))

def weighted (f : Features K) (betas : Betas K) : K :=
  [A.mul betas.mutation_type f.mutation_type.1, A.mul betas.scope f.scope.1,
    A.mul betas.graph_fanout f.graph_fanout.1, A.mul betas.pii_class f.pii_class.1,
    A.mul betas.irreversibility f.irreversibility.1, A.mul betas.source_tier_risk f.source_tier_risk.1,
    A.mul betas.novelty f.novelty.1, betas.bias].foldl A.add (A.mul betas.impact_declared f.impact_declared.1)

def score_impact (f : Features K) (impact_level : ImpactLevel) (betas : Betas K) : Except Exc (UnitOf K) :=
  unit_of "risk" (max (A.sigmoid (A.weighted f betas)) (A.risk_floor impact_level))

/-! ### Confidence -/

/-- The five weights, which sum to 1 within the tolerance. -/
structure Weights where
  uncertainty : UnitOf K
  grounding : UnitOf K
  schema_fit : UnitOf K
  corroboration : UnitOf K
  consistency : UnitOf K
  sum_to_one :
    let total := [grounding.1, schema_fit.1, corroboration.1, consistency.1].foldl A.add uncertainty.1
    |total - 1| ≤ max (1 / 10 ^ 9 * max |total| 1) (1 / 10 ^ 9)

def grounding (span_entailment : K) (tier : SourceTier) (alignment : K) : K :=
  A.mul (A.mul span_entailment (A.grounding_multiplier tier)) alignment

def corroboration (sources : ℕ) : Except Exc K :=
  if sources < 1 then .error (.ValueError ("corroboration needs at least one source, got " ++
    toString sources ++ "; a candidate without provenance never reaches scoring"))
  else .ok (A.sub 1 (A.exp (A.mul (-A.round (8 / 10)) ((sources - 1 : ℕ) : K))))

def consistency (kind : ConflictKind) (contradiction : K) : K :=
  if kind = .CARDINALITY ∨ kind = .TEMPORAL_OVERLAP then 0
  else if kind = .REFINEMENT then A.round (9 / 10)
  else A.sub 1 contradiction

def score_confidence (entropy span_entailment : K) (tier : SourceTier) (alignment schema_fit : K)
    (sources : ℕ) (kind : ConflictKind) (contradiction : K) (weights : Weights A) :
    Except Exc (Report K) := do
  let source_score := A.grounding span_entailment tier alignment
  let corroboration_score ← A.corroboration sources
  let consistency_score := A.consistency kind contradiction
  let composite := [A.mul weights.grounding.1 source_score, A.mul weights.schema_fit.1 schema_fit,
    A.mul weights.corroboration.1 corroboration_score,
    A.mul weights.consistency.1 consistency_score].foldl A.add
      (A.mul weights.uncertainty.1 (A.sub 1 entropy))
  .ok { semantic_entropy := ← unit_of "semantic_entropy" entropy
        grounding := ← unit_of "grounding" source_score
        schema_fit := ← unit_of "schema_fit" schema_fit
        corroboration := ← unit_of "corroboration" corroboration_score
        consistency := ← unit_of "consistency" consistency_score
        confidence := ← unit_of "confidence" (min 1 (max 0 composite)) }

end Arithmetic

/-- `corroboration(2)`. -/
noncomputable def two_sources : ℝ := 1 - Real.exp (-(8 / 10))

/-- What `n` sources corroborate. -/
noncomputable def corroborates (n : ℕ) : ℝ := 1 - Real.exp (-(8 / 10) * ((n - 1 : ℕ) : ℝ))

/-! ### The doubles -/

variable {py : Python}

def RiskFeatures.over (f : RiskFeatures) : Features ℚ :=
  ⟨f.impact_declared, f.mutation_type, f.scope, f.graph_fanout, f.pii_class, f.irreversibility,
    f.source_tier_risk, f.novelty⟩

def RiskBetas.over (b : RiskBetas) : Betas ℚ :=
  ⟨b.impact_declared, b.mutation_type, b.scope, b.graph_fanout, b.pii_class, b.irreversibility,
    b.source_tier_risk, b.novelty, b.bias⟩

def ConfidenceWeights.over (w : ConfidenceWeights py) : py.arithmetic.Weights :=
  ⟨w.uncertainty, w.grounding, w.schema_fit, w.corroboration, w.consistency, w.sum_to_one⟩

def ConfidenceReport.over (r : ConfidenceReport) : Report ℚ :=
  ⟨r.semantic_entropy, r.grounding, r.schema_fit, r.corroboration, r.consistency, r.confidence⟩

theorem grounding_multiplier_floats (tier : SourceTier) :
    tier.grounding_multiplier py = py.arithmetic.grounding_multiplier tier := by
  cases tier <;> rfl

theorem risk_floor_floats (level : ImpactLevel) : level.risk_floor py = py.arithmetic.risk_floor level := by
  cases level <;> rfl

/-- CORRECT: at the doubles the open formulas are the code's. -/
theorem score_impact_floats (f : RiskFeatures) (level : ImpactLevel) (betas : RiskBetas) :
    (score_impact py f level betas).map RiskVerdict.risk =
      py.arithmetic.score_impact f.over level betas.over := by
  have hrisk : py.arithmetic.score_impact f.over level betas.over =
      unit_field "risk" (max (sigmoid py (weighted py f betas)) (level.risk_floor py)) := by
    rw [Arithmetic.score_impact, ← risk_floor_floats]
    rfl
  rw [hrisk, score_impact]
  cases unit_field "risk" (max (sigmoid py (weighted py f betas)) (level.risk_floor py)) <;> rfl

theorem grounding_floats (span_entailment : ℚ) (tier : SourceTier) (alignment : ℚ) :
    py.arithmetic.grounding span_entailment tier alignment = grounding py span_entailment tier alignment := by
  rw [Arithmetic.grounding, ← grounding_multiplier_floats]
  rfl

theorem score_confidence_floats (entropy span_entailment : ℚ) (tier : SourceTier) (alignment schema_fit : ℚ)
    (sources : ℕ) (conflict : ConflictReport) (weights : ConfidenceWeights py) :
    (score_confidence py entropy span_entailment tier alignment schema_fit sources conflict weights).map
        ConfidenceReport.over =
      py.arithmetic.score_confidence entropy span_entailment tier alignment schema_fit sources conflict.kind
        conflict.contradiction.1 weights.over := by
  have hmap : ∀ r : Except Exc ConfidenceReport, r.map ConfidenceReport.over = ConfidenceReport.over <$> r :=
    fun _ => rfl
  rw [hmap, score_confidence, Arithmetic.score_confidence]
  simp only [map_bind, grounding_floats]
  rfl

theorem decide_floats (conf : ConfidenceReport) (risk : RiskVerdict) (conflict : ConflictReport)
    (t : Thresholds) (esc : Bool) (signals : OverrideSignals) :
    (decide conf risk conflict t esc signals).decision =
      decision_of CORROBORATED conf.confidence.1 conf.corroboration.1 risk.risk.1 t.cuts risk.impact_level
        risk.obligations conflict.resolution_hint esc signals := decide_decision

end GuardMem
