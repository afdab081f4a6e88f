import GuardMem.Memory.Tables
import GuardMem.Pipeline.Decision

/-! Layer 3's two scores: `confidence.score_confidence` and `impact.score_impact`.

    A float operation is its exact result rounded, and what the language does to floats and texts is
    `Python`. CORRECT for what the matrix relies on: a fresh candidate rests on one source, and one
    source corroborates nothing (`corroboration_one`). -/

namespace GuardMem

/-- The language's floats and texts: rounding to a double, `math.exp`, `math.log1p`, `str` of a float,
    `float` of a text and `str.strip`. -/
structure Python where
  round : ℚ → ℚ
  exp : ℚ → ℚ
  log1p : ℚ → ℚ
  str_float : ℚ → String
  float_str : String → Option ℚ
  strip : String → String
  round_zero : round 0 = 0
  exp_zero : exp 0 = 1

namespace Python

variable (py : Python)

def add (a b : ℚ) : ℚ := py.round (a + b)
def sub (a b : ℚ) : ℚ := py.round (a - b)
def mul (a b : ℚ) : ℚ := py.round (a * b)
def div (a b : ℚ) : ℚ := py.round (a / b)

/-- Rounding to the nearest double: on the unit interval it is off by `2 ^ -53` at most. -/
def Nearest : Prop := ∀ q : ℚ, 0 ≤ q → q ≤ 1 → |py.round q - q| ≤ 1 / 2 ^ 53

/-- Rounding does not leave the unit interval, whose ends are doubles. -/
def KeepsUnit : Prop := ∀ q : ℚ, 0 ≤ q → q ≤ 1 → 0 ≤ py.round q ∧ py.round q ≤ 1

end Python

variable (py : Python)

/-- `Field(ge=0.0, le=1.0)` at construction. -/
def unit_field (name : String) (x : ℚ) : Except Exc UnitFloat :=
  if h : 0 ≤ x ∧ x ≤ 1 then .ok ⟨x, h⟩ else .error (.ValidationError name)

/-! ### What a tier, a level and a class are worth -/

/-- The position in the enum: later is weaker. -/
def SourceTier.order : SourceTier → ℕ
  | .TRUSTED_SYSTEM => 0
  | .VERIFIED_USER => 1
  | .UNVERIFIED_USER => 2
  | .TOOL_OUTPUT => 3
  | .RETRIEVED_WEB => 4

/-- Is this tier at least as trustworthy as `floor`? -/
def SourceTier.at_least (tier floor : SourceTier) : Bool := tier.order ≤ floor.order

def SourceTier.grounding_multiplier : SourceTier → ℚ
  | .TRUSTED_SYSTEM => 1
  | .VERIFIED_USER => py.round (95 / 100)
  | .UNVERIFIED_USER => py.round (8 / 10)
  | .TOOL_OUTPUT => py.round (85 / 100)
  | .RETRIEVED_WEB => py.round (6 / 10)

def ImpactLevel.risk_floor : ImpactLevel → ℚ
  | .LOW => py.round (15 / 100)
  | .MEDIUM => py.round (35 / 100)
  | .HIGH => py.round (60 / 100)
  | .CRITICAL => py.round (80 / 100)

def ImpactLevel.risk_feature : ImpactLevel → ℚ
  | .LOW => 0
  | .MEDIUM => py.round (33 / 100)
  | .HIGH => py.round (66 / 100)
  | .CRITICAL => 1

/-- What kind of personal data a predicate carries. -/
inductive PiiClass where
  | NONE
  | QUASI_IDENTIFIER
  | DIRECT
  | SPECIAL_CATEGORY
  deriving DecidableEq

def PiiClass.risk_feature : PiiClass → ℚ
  | .NONE => 0
  | .QUASI_IDENTIFIER => 1 / 2
  | .DIRECT => py.round (8 / 10)
  | .SPECIAL_CATEGORY => 1

/-- Whether what was done on a belief can be undone. -/
inductive Irreversibility where
  | REVERSIBLE
  | PARTIAL
  | IRREVERSIBLE
  deriving DecidableEq

def Irreversibility.risk_feature : Irreversibility → ℚ
  | .REVERSIBLE => 0
  | .PARTIAL => 1 / 2
  | .IRREVERSIBLE => 1

/-- How widely shared the namespace a write lands in is. -/
inductive Scope where
  | SESSION
  | USER
  | ORG
  deriving DecidableEq

def Scope.risk_feature : Scope → ℚ
  | .SESSION => py.round (1 / 10)
  | .USER => 1 / 2
  | .ORG => 1

/-- `scope`, off the namespace's own prefix. -/
def scope_of_namespace (ns : Namespace) : Scope :=
  if "org:".isPrefixOf ns then .ORG
  else if "session:".isPrefixOf ns then .SESSION
  else .USER

def MutationType.risk_feature : MutationType → ℚ
  | .COEXIST => 0
  | .REFINE => py.round (3 / 10)
  | .SUPERSEDE => py.round (7 / 10)
  | .RETRACT => 1

/-- How much depends on this subject: `log(1 + degree) / log(1 + 50)`, at most 1. -/
def graph_fanout (degree : ℕ) : ℚ := min 1 (py.div (py.log1p degree) (py.log1p 50))

/-- `1 - trust multiplier`. -/
def source_tier_risk (tier : SourceTier) : ℚ := py.sub 1 (tier.grounding_multiplier py)

/-- `1 - max cosine to existing memory`, clamped; 1 with nothing near. -/
def novelty : Option ℚ → ℚ
  | none => 1
  | some nearest_cosine => min 1 (max 0 (py.sub 1 nearest_cosine))

/-! ### Impact -/

/-- The eight features, each in the unit interval. -/
structure RiskFeatures where
  impact_declared : UnitFloat
  mutation_type : UnitFloat
  scope : UnitFloat
  graph_fanout : UnitFloat
  pii_class : UnitFloat
  irreversibility : UnitFloat
  source_tier_risk : UnitFloat
  novelty : UnitFloat

def RiskFeatures.model_dump (f : RiskFeatures) : List (String × ℚ) :=
  [("impact_declared", f.impact_declared.1), ("mutation_type", f.mutation_type.1),
   ("scope", f.scope.1), ("graph_fanout", f.graph_fanout.1), ("pii_class", f.pii_class.1),
   ("irreversibility", f.irreversibility.1), ("source_tier_risk", f.source_tier_risk.1),
   ("novelty", f.novelty.1)]

/-- The coefficients and the bias: any numbers, as a refit may return them. -/
structure RiskBetas where
  impact_declared : ℚ
  mutation_type : ℚ
  scope : ℚ
  graph_fanout : ℚ
  pii_class : ℚ
  irreversibility : ℚ
  source_tier_risk : ℚ
  novelty : ℚ
  bias : ℚ
  version : String

/-- `1 / (1 + exp(-z))`, in the branch that cannot overflow. -/
def sigmoid (z : ℚ) : ℚ :=
  if 0 ≤ z then py.div 1 (py.add 1 (py.exp (-z)))
  else py.div (py.exp z) (py.add 1 (py.exp z))

/-- The linear score. -/
def weighted (features : RiskFeatures) (betas : RiskBetas) : ℚ :=
  let terms := [py.mul betas.mutation_type features.mutation_type.1, py.mul betas.scope features.scope.1,
    py.mul betas.graph_fanout features.graph_fanout.1, py.mul betas.pii_class features.pii_class.1,
    py.mul betas.irreversibility features.irreversibility.1,
    py.mul betas.source_tier_risk features.source_tier_risk.1,
    py.mul betas.novelty features.novelty.1, betas.bias]
  terms.foldl py.add (py.mul betas.impact_declared features.impact_declared.1)

/-- The blast radius of writing this candidate. -/
def score_impact (features : RiskFeatures) (impact_level : ImpactLevel) (betas : RiskBetas) :
    Except Exc RiskVerdict := do
  let risk ← unit_field "risk" (max (sigmoid py (weighted py features betas)) (impact_level.risk_floor py))
  .ok ⟨impact_level, risk, features.model_dump, [], RiskVerdict.unobliged⟩

/-! ### Confidence -/

/-- `math.isclose(total, 1.0, abs_tol=1e-9)`, the relative tolerance being the same by default. -/
def isclose_one (total : ℚ) : Prop :=
  |total - 1| ≤ max (1 / 10 ^ 9 * max |total| 1) (1 / 10 ^ 9)

/-- The five weights, which sum to 1. -/
structure ConfidenceWeights where
  uncertainty : UnitFloat
  grounding : UnitFloat
  schema_fit : UnitFloat
  corroboration : UnitFloat
  consistency : UnitFloat
  version : String
  sum_to_one : isclose_one
    ([grounding.1, schema_fit.1, corroboration.1, consistency.1].foldl py.add uncertainty.1)

/-- Does the cited span support the claim? -/
def grounding (span_entailment : ℚ) (tier : SourceTier) (alignment : ℚ) : ℚ :=
  py.mul (py.mul span_entailment (tier.grounding_multiplier py)) alignment

/-- How many independent sources say this. -/
def corroboration (sources : ℕ) : Except Exc ℚ :=
  if sources < 1 then .error (.ValueError ("corroboration needs at least one source, got " ++
    toString sources ++ "; a candidate without provenance never reaches scoring"))
  else .ok (py.sub 1 (py.exp (py.mul (-py.round (8 / 10)) ((sources - 1 : ℕ) : ℚ))))

/-- How well this sits with what is already believed. -/
def consistency (conflict : ConflictReport) : ℚ :=
  if conflict.kind = .CARDINALITY ∨ conflict.kind = .TEMPORAL_OVERLAP then 0
  else if conflict.kind = .REFINEMENT then py.round (9 / 10)
  else py.sub 1 conflict.contradiction.1

/-- Compose the five terms. -/
def score_confidence (entropy span_entailment : ℚ) (tier : SourceTier) (alignment schema_fit : ℚ)
    (sources : ℕ) (conflict : ConflictReport) (weights : ConfidenceWeights py) :
    Except Exc ConfidenceReport := do
  let source_score := grounding py span_entailment tier alignment
  let corroboration_score ← corroboration py sources
  let consistency_score := consistency py conflict
  let composite := [py.mul weights.grounding.1 source_score, py.mul weights.schema_fit.1 schema_fit,
    py.mul weights.corroboration.1 corroboration_score,
    py.mul weights.consistency.1 consistency_score].foldl py.add
      (py.mul weights.uncertainty.1 (py.sub 1 entropy))
  .ok { semantic_entropy := ← unit_field "semantic_entropy" entropy
        grounding := ← unit_field "grounding" source_score
        schema_fit := ← unit_field "schema_fit" schema_fit
        corroboration := ← unit_field "corroboration" corroboration_score
        consistency := ← unit_field "consistency" consistency_score
        confidence := ← unit_field "confidence" (min 1 (max 0 composite))
        weights_version := weights.version }

variable {py}

theorem unit_field_ok {name : String} {x : ℚ} {u : UnitFloat} :
    unit_field name x = .ok u ↔ u.1 = x := by
  unfold unit_field
  split
  · next h =>
      rw [Except.ok.injEq]
      exact ⟨fun heq => heq ▸ rfl, fun heq => Subtype.ext heq.symm⟩
  · next h =>
      refine iff_of_false (by simp) fun heq => h ?_
      rw [← heq]
      exact u.2

/-- CORRECT: one source corroborates nothing. -/
theorem corroboration_one : corroboration py 1 = .ok 0 := by
  simp [corroboration, Python.sub, Python.mul, py.round_zero, py.exp_zero]

theorem score_confidence_corroboration {entropy span_entailment : ℚ} {tier : SourceTier}
    {alignment schema_fit : ℚ} {conflict : ConflictReport} {weights : ConfidenceWeights py}
    {r : ConfidenceReport}
    (h : score_confidence py entropy span_entailment tier alignment schema_fit 1 conflict weights = .ok r) :
    r.corroboration.1 = 0 := by
  simp only [score_confidence, corroboration_one, bind_ok, Except.ok.injEq, exists_eq_left',
    unit_field_ok] at h
  obtain ⟨_, -, _, -, _, -, u, hu, _, -, _, -, rfl⟩ := h
  exact hu

/-- CORRECT: no features and no coefficients bring the risk below the level's floor. -/
theorem score_impact_floor {f : RiskFeatures} {level : ImpactLevel} {betas : RiskBetas} {r : RiskVerdict}
    (h : score_impact py f level betas = .ok r) : level.risk_floor py ≤ r.risk.1 := by
  simp only [score_impact, bind_ok, Except.ok.injEq, unit_field_ok] at h
  obtain ⟨u, hu, rfl⟩ := h
  exact hu ▸ le_max_right _ _

theorem score_impact_level {f : RiskFeatures} {level : ImpactLevel} {betas : RiskBetas} {r : RiskVerdict}
    (h : score_impact py f level betas = .ok r) : r.impact_level = level ∧ r.obligations = [] := by
  simp only [score_impact, bind_ok, Except.ok.injEq] at h
  obtain ⟨_, -, rfl⟩ := h
  exact ⟨rfl, rfl⟩

end GuardMem
