import GuardMem.Schemas.Entity
import GuardMem.Schemas.Verdict
import Mathlib.Data.Fin.VecNotation

/-! Layer 3's decision matrix and its overrides: `decision.decide` and `overrides.apply_overrides`.

    Confidence and risk arrive as reports. CORRECT for what the write path relies on: a conflict
    whose hint is `escalate` is never written (`decide_escalate`). -/

namespace GuardMem

/-- What a write would do to memory. -/
inductive MutationType where
  | COEXIST
  | REFINE
  | SUPERSEDE
  | RETRACT
  deriving DecidableEq

/-- The mutation a Layer 2 finding implies: the conflicting kinds supersede. -/
def MutationType.from_conflict : ConflictKind → MutationType
  | .NONE => .COEXIST
  | .DUPLICATE => .COEXIST
  | .REFINEMENT => .REFINE
  | .CONTRADICTION => .SUPERSEDE
  | .CARDINALITY => .SUPERSEDE
  | .TEMPORAL_OVERLAP => .SUPERSEDE

/-- What the overrides need and the three reports cannot say. -/
structure OverrideSignals where
  injection_detected : Bool
  source_tier : SourceTier
  mutation : MutationType
  requires_corroboration : Bool
  budget_exhausted : Bool
  circuit_open : Bool
  policy_version : String

/-- The signals of a pipeline run. Four are benign: no surface sets them yet. -/
def override_signals (candidate : MemoryCandidate) (spec : PredicateSpec) (policy_version : String)
    (kind : ConflictKind) : OverrideSignals where
  injection_detected := false
  source_tier := candidate.provenance.source_tier
  mutation := .from_conflict kind
  requires_corroboration := spec.requires_corroboration
  budget_exhausted := false
  circuit_open := false
  policy_version := policy_version

/-- Position in `_PERMISSIVENESS`: later is stricter. -/
def permissiveness : Decision → ℕ
  | .AUTO_WRITE => 0
  | .ESCALATE => 1
  | .HITL_REVIEW => 2
  | .REJECT => 3

/-- Whichever of the two is less permissive; `max` keeps the first among equals. -/
def tighten (current proposed : Decision) : Decision :=
  if permissiveness current < permissiveness proposed then proposed else current

/-- The seven rules as `(code, fires, proposed)`. -/
def rules (risk : RiskVerdict) (conflict : ConflictReport) (signals : OverrideSignals)
    (already_escalated corroborated : Bool) : List (String × Bool × Decision) :=
  [("OVR_INJECTION_DETECTED", signals.injection_detected, .REJECT),
   ("OVR_WEB_SOURCE_HIGH_IMPACT",
     signals.source_tier == .RETRIEVED_WEB &&
       (risk.impact_level == .HIGH || risk.impact_level == .CRITICAL), .HITL_REVIEW),
   ("OVR_CORROBORATION_REQUIRED", signals.requires_corroboration && !corroborated, .HITL_REVIEW),
   ("OVR_CONFLICT_HINT_ESCALATE", conflict.resolution_hint == .escalate,
     if already_escalated then .HITL_REVIEW else .ESCALATE),
   ("OVR_BUDGET_OR_CIRCUIT", signals.budget_exhausted || signals.circuit_open, .HITL_REVIEW),
   ("OVR_POLICY_REQUIRE_REVIEW",
     risk.obligations.contains ObligationKind.REQUIRE_REVIEW.value, .HITL_REVIEW),
   ("OVR_CRITICAL_RETRACTION_STEP_UP",
     risk.impact_level == .CRITICAL && signals.mutation == .RETRACT, .HITL_REVIEW)]

/-- One rule of the loop: a rule that fires proposes through `tighten` and leaves its code. -/
def apply_rule (acc : Decision × List String) (rule : String × Bool × Decision) :
    Decision × List String :=
  if rule.2.1 then (tighten acc.1 rule.2.2, acc.2 ++ [rule.1]) else acc

/-- Run the seven overrides over a matrix result. -/
def apply_overrides (decision : Decision) (risk : RiskVerdict) (conflict : ConflictReport)
    (signals : OverrideSignals) (already_escalated corroborated : Bool) : Decision × List String :=
  (rules risk conflict signals already_escalated corroborated).foldl apply_rule (decision, [])

/-- The confidence row, ascending and half-open upward. -/
def confidence_band (confidence : ℚ) (t : Thresholds) : Fin 4 :=
  if t.tau_hi.1 ≤ confidence then 3
  else if t.tau_mid.1 ≤ confidence then 2
  else if t.tau_lo.1 ≤ confidence then 1
  else 0

/-- The risk column, ascending and half-open upward. -/
def risk_band (risk : ℚ) (t : Thresholds) : Fin 3 :=
  if t.rho_hi.1 ≤ risk then 2
  else if t.rho_lo.1 ≤ risk then 1
  else 0

/-- Five ordered cut points among any numbers. -/
structure Cuts (K : Type) [LinearOrder K] where
  tau_lo : K
  tau_mid : K
  tau_hi : K
  rho_lo : K
  rho_hi : K
  taus_ordered : tau_lo < tau_mid ∧ tau_mid < tau_hi
  rhos_ordered : rho_lo < rho_hi

def Cuts.confidence_band {K : Type} [LinearOrder K] (t : Cuts K) (confidence : K) : Fin 4 :=
  if t.tau_hi ≤ confidence then 3
  else if t.tau_mid ≤ confidence then 2
  else if t.tau_lo ≤ confidence then 1
  else 0

def Cuts.risk_band {K : Type} [LinearOrder K] (t : Cuts K) (risk : K) : Fin 3 :=
  if t.rho_hi ≤ risk then 2
  else if t.rho_lo ≤ risk then 1
  else 0

def C_BANDS : Fin 4 → String :=
  ![ "C_BELOW_TAU_LO", "C_IN_TAU_LO_BAND", "C_IN_TAU_MID_BAND", "C_AT_OR_ABOVE_TAU_HI"]

def R_BANDS : Fin 3 → String := ![ "R_BELOW_RHO_LO", "R_IN_RHO_BAND", "R_AT_OR_ABOVE_RHO_HI"]

/-- The grid, `[confidence band][risk band]`; `none` is the starred cell. -/
def MATRIX : Fin 4 → Fin 3 → Option Decision :=
  ![ ![some .REJECT, some .REJECT, some .HITL_REVIEW],
     ![some .ESCALATE, some .ESCALATE, some .HITL_REVIEW],
     ![some .AUTO_WRITE, some .HITL_REVIEW, some .HITL_REVIEW],
     ![some .AUTO_WRITE, none, some .HITL_REVIEW]]

/-- Read one cell, resolving the starred one. -/
def from_matrix (c : Fin 4) (r : Fin 3) (corroborated : Bool) : Decision × List String :=
  let codes := [C_BANDS c, R_BANDS r]
  match MATRIX c r with
  | some cell => (cell, codes)
  | none =>
      if corroborated then (.AUTO_WRITE, codes)
      else (.HITL_REVIEW, codes ++ ["CORROBORATION_BELOW_TWO"])

/-- `corroboration(2) = 1 - exp(-0.8)`, as the double the module computes at import. -/
def CORROBORATED : ℚ := 5506710358827784 / 10000000000000000

/-- Turn three verdicts into one decision. -/
def decide (conf : ConfidenceReport) (risk : RiskVerdict) (conflict : ConflictReport)
    (thresholds : Thresholds) (already_escalated : Bool) (signals : OverrideSignals) :
    DecisionRecord :=
  let corroborated : Bool := CORROBORATED ≤ conf.corroboration.1
  let (cell, codes) := from_matrix (confidence_band conf.confidence.1 thresholds)
    (risk_band risk.risk.1 thresholds) corroborated
  let (tightened, override_codes) :=
    apply_overrides cell risk conflict signals already_escalated corroborated
  let (decision, codes) :=
    if already_escalated && tightened == .ESCALATE then
      (.HITL_REVIEW, codes ++ override_codes ++ ["ESCALATION_NOT_REPEATABLE"])
    else (tightened, codes ++ override_codes)
  { decision := decision
    reason_codes := codes
    confidence := conf
    risk := risk
    conflict := conflict
    thresholds_version := thresholds.version
    policy_version := signals.policy_version
    escalated_from := if already_escalated then some .ESCALATE else none }

/-- A candidate that rests on one source is not corroborated. -/
theorem not_corroborated {conf : ConfidenceReport} (h : conf.corroboration.1 = 0) :
    ¬ CORROBORATED ≤ conf.corroboration.1 := by
  rw [h, CORROBORATED]
  norm_num

/-! ### Overrides only tighten -/

theorem permissiveness_tighten (a b : Decision) :
    permissiveness (tighten a b) = max (permissiveness a) (permissiveness b) := by
  unfold tighten
  split <;> omega

/-- The loop ends at least as strict as it began and as strict as any rule that fired. -/
theorem foldl_apply_rule {rs : List (String × Bool × Decision)} (acc : Decision × List String) :
    permissiveness acc.1 ≤ permissiveness (rs.foldl apply_rule acc).1 ∧
      ∀ rule ∈ rs, rule.2.1 = true →
        permissiveness rule.2.2 ≤ permissiveness (rs.foldl apply_rule acc).1 := by
  induction rs generalizing acc with
  | nil => simp
  | cons r rs ih =>
      have hstep : permissiveness acc.1 ≤ permissiveness (apply_rule acc r).1 := by
        unfold apply_rule
        split
        · rw [permissiveness_tighten]; exact le_max_left _ _
        · exact le_rfl
      obtain ⟨hmono, hrules⟩ := ih (apply_rule acc r)
      refine ⟨hstep.trans hmono, ?_⟩
      intro rule hmem hfires
      rcases List.mem_cons.mp hmem with rfl | htail
      · refine le_trans ?_ hmono
        rw [apply_rule, if_pos hfires, permissiveness_tighten]
        exact le_max_right _ _
      · exact hrules rule htail hfires

/-- CORRECT: a conflict that escalates is never auto-written. -/
theorem decide_escalate {conf : ConfidenceReport} {risk : RiskVerdict} {conflict : ConflictReport}
    {t : Thresholds} {esc : Bool} {signals : OverrideSignals}
    (h : conflict.resolution_hint = .escalate) :
    (decide conf risk conflict t esc signals).decision ≠ .AUTO_WRITE := by
  have hne : ∀ cell corroborated,
      (apply_overrides cell risk conflict signals esc corroborated).1 ≠ .AUTO_WRITE := by
    intro cell corroborated heq
    have hrule : ("OVR_CONFLICT_HINT_ESCALATE", conflict.resolution_hint == .escalate,
        if esc then Decision.HITL_REVIEW else .ESCALATE) ∈
          rules risk conflict signals esc corroborated := by simp [rules]
    have hstrict := (foldl_apply_rule (cell, [])).2 _ hrule (by simp [h])
    rw [apply_overrides] at heq
    rw [heq] at hstrict
    cases esc <;> simp [permissiveness] at hstrict
  unfold decide
  dsimp only
  split
  · simp
  · exact hne _ _

end GuardMem
