import GuardMem.SourceCap

/-! What a predicate's declared impact keeps out of the auto-write path.

    The floor goes under the sigmoid's result whatever the coefficients are, a fresh candidate rests on
    one source and the overrides only tighten. CORRECT: so no candidate of an impact above `LOW` is
    written while `rho_lo` is at most the `MEDIUM` floor, and under a `rho_hi` of at most the `CRITICAL`
    floor none of a `CRITICAL` impact is, however corroborated (`impact_not_bought_off`). -/

namespace GuardMem

variable {py : Python} {deps : Deps} {pack : Pack} {weights : ConfidenceWeights py} {betas : RiskBetas}
  {proposal : Proposal} {verdict : GatedCandidate} {answers : Answers} {a : Assessment}
  {g : GovernedCandidate}

/-- The floors are further apart than rounding can bring together. -/
theorem risk_floor_medium (hpy : py.Nearest) {level : ImpactLevel} (h : level ≠ .LOW) :
    ImpactLevel.MEDIUM.risk_floor py ≤ level.risk_floor py := by
  have hnear : ∀ q : ℚ, 0 ≤ q → q ≤ 1 → q - 1 / 2 ^ 53 ≤ py.round q ∧ py.round q ≤ q + 1 / 2 ^ 53 := by
    intro q h0 h1
    obtain ⟨hlow, hhigh⟩ := abs_le.mp (hpy q h0 h1)
    constructor <;> linarith
  have hmedium := (hnear (35 / 100) (by norm_num) (by norm_num)).2
  cases level with
  | LOW => exact absurd rfl h
  | MEDIUM => exact le_rfl
  | HIGH =>
      have hhigh := (hnear (60 / 100) (by norm_num) (by norm_num)).1
      exact hmedium.trans (le_trans (by norm_num) hhigh)
  | CRITICAL =>
      have hcritical := (hnear (80 / 100) (by norm_num) (by norm_num)).1
      exact hmedium.trans (le_trans (by norm_num) hcritical)

/-! ### One decision -/

/-- CORRECT: at or above `rho_hi` nothing is written, corroborated or not. -/
theorem decide_top {conf : ConfidenceReport} {risk : RiskVerdict} {conflict : ConflictReport}
    {t : Thresholds} {esc : Bool} {signals : OverrideSignals} (h : t.rho_hi.1 ≤ risk.risk.1) :
    (decide conf risk conflict t esc signals).decision ≠ .AUTO_WRITE := by
  rw [Ne, decide_auto]
  rintro ⟨hmid | hhi, -⟩
  · exact absurd (hmid.2.trans t.rhos_ordered) (not_lt.mpr h)
  · exact absurd hhi.2.1 (not_lt.mpr h)

/-- The risk of an assessed candidate is at least its predicate's floor. -/
theorem assess_floor (h : assess py deps pack weights betas proposal verdict answers = .ok a) :
    a.spec.impact.risk_floor py ≤ a.risk.risk.1 := by
  simp only [assess, bind_ok, Except.ok.injEq] at h
  obtain ⟨_, -, _, -, _, -, _, -, _, -, _, -, _, hrisk, rfl⟩ := h
  exact score_impact_floor hrisk

/-- CORRECT: a decided candidate's risk is at least its floor, and at or above `rho_lo` it is not
    written: it rests on one source. -/
theorem decide_one_floor (h : decide_one py deps pack weights betas proposal verdict answers = .ok g) :
    ∃ spec, pack g.candidate.predicate = some spec ∧ spec.impact.risk_floor py ≤ g.record.risk.risk.1 ∧
      (deps.thresholds.rho_lo.1 ≤ g.record.risk.risk.1 → g.record.decision ≠ .AUTO_WRITE) := by
  obtain ⟨a, ha, hg⟩ := bind_ok.mp h
  obtain rfl := Except.ok.inj hg
  obtain ⟨hspec, hfresh, -⟩ := assess_ok ha
  refine ⟨a.spec, hspec, assess_floor ha, fun hrisk hwrite => ?_⟩
  exact absurd ((decide_auto_fresh hfresh).mp hwrite).1.2 (not_lt.mpr hrisk)

/-! ### One submission -/

/-- What a submission governs was decided from answers its candidate got. -/
theorem governed_decided {layer1 : Call Extraction} {scoring : CandidateId → Call Answers}
    {result : PipelineResult} {failures : List CandidateFailure}
    (h : Orchestrator.run py deps pack weights betas proposal layer1 scoring = .answers (result, failures))
    (hg : g ∈ result.governed) :
    ∃ v answers, decide_one py deps pack weights betas proposal v answers = .ok g := by
  cases layer1 with
  | raises exc => cases h
  | cancelled => cases h
  | answers extracted =>
      simp only [Orchestrator.run] at h
      split at h
      · cases h
      · obtain ⟨rfl, -⟩ := Prod.mk.inj (Call.answers.inj h)
        obtain ⟨v, -, hv⟩ := List.mem_filterMap.mp hg
        simp only [score, Call.caught] at hv
        cases hcall : scoring v.id with
        | raises exc => simp [hcall] at hv
        | cancelled => simp [hcall, governed_of] at hv
        | answers reply =>
            refine ⟨v, reply, ?_⟩
            cases hd : decide_one py deps pack weights betas proposal v reply with
            | error exc => simp [hcall, hd] at hv
            | ok g' =>
                simp only [hcall, hd, governed_of_ok] at hv
                exact congrArg Except.ok (Option.some.inj hv)

/-- CORRECT: declared impact cannot be bought off. -/
theorem impact_not_bought_off (py : Python) (hpy : py.Nearest) :
    (∀ (deps : Deps) (pack : Pack) (weights : ConfidenceWeights py) (betas : RiskBetas)
      (proposal : Proposal) (layer1 : Call Extraction) (scoring : CandidateId → Call Answers)
      (result : PipelineResult) (failures : List CandidateFailure),
      Orchestrator.run py deps pack weights betas proposal layer1 scoring = .answers (result, failures) →
      ∀ g ∈ result.governed, ∃ spec, pack g.candidate.predicate = some spec ∧
        spec.impact.risk_floor py ≤ g.record.risk.risk.1 ∧
        (deps.thresholds.rho_lo.1 ≤ py.round (35 / 100) → spec.impact ≠ .LOW →
          g.record.decision ≠ .AUTO_WRITE)) ∧
    ∀ (features : RiskFeatures) (betas : RiskBetas) (scored : RiskVerdict),
      score_impact py features .CRITICAL betas = .ok scored →
      ∀ (conf : ConfidenceReport) (risk : RiskVerdict) (conflict : ConflictReport) (t : Thresholds)
        (already_escalated : Bool) (signals : OverrideSignals), risk.risk = scored.risk →
        t.rho_hi.1 ≤ py.round (80 / 100) →
        (decide conf risk conflict t already_escalated signals).decision ≠ .AUTO_WRITE := by
  constructor
  · intro deps pack weights betas proposal layer1 scoring result failures hrun g hg
    obtain ⟨v, reply, hd⟩ := governed_decided hrun hg
    obtain ⟨spec, hspec, hfloor, hstop⟩ := decide_one_floor hd
    refine ⟨spec, hspec, hfloor, fun hrho himpact => hstop ?_⟩
    exact hrho.trans ((risk_floor_medium hpy himpact).trans hfloor)
  · intro features betas scored hscore conf risk conflict t esc signals hrisk hrho
    refine decide_top (hrho.trans ?_)
    rw [hrisk]
    exact score_impact_floor hscore

namespace Clinical

/-- A pack whose one predicate is critical. -/
def allergy_pack : Pack := fun predicate =>
  if predicate = "allergy" then
    some { subject := "Patient", cardinality := .MANY, impact := .CRITICAL, object := .scalar .text
           pii_class := .SPECIAL_CATEGORY, irreversibility := .IRREVERSIBLE
           min_source_tier := .UNVERIFIED_USER }
  else none

theorem medium_unit : 0 ≤ float (35 / 100) ∧ float (35 / 100) ≤ 1 := by decide +kernel

theorem critical_unit : 0 ≤ float (80 / 100) ∧ float (80 / 100) ≤ 1 := by decide +kernel

theorem floors_ordered : float (35 / 100) < float (80 / 100) := by decide +kernel

/-- The cut points at the floors. -/
def floor_thresholds : Thresholds where
  tau_lo := percent 45
  tau_mid := percent 60
  tau_hi := percent 78
  rho_lo := ⟨float (35 / 100), medium_unit⟩
  rho_hi := ⟨float (80 / 100), critical_unit⟩
  version := "floors"
  taus_ordered := thresholds.taus_ordered
  rhos_ordered := floors_ordered

/-- What the patient says of an allergy. -/
def said_allergy : MemoryCandidate := { language "trace" "1" "penicillin" 0 with predicate := "allergy" }

/-- A fit that prices nothing: every score is one half. -/
def no_betas : RiskBetas := ⟨0, 0, 0, 0, 0, 0, 0, 0, 0, "none"⟩

def no_features : RiskFeatures :=
  ⟨.zero, .zero, .zero, .zero, .zero, .zero, .zero, .zero⟩

end Clinical

open Clinical in
/-- One half is below the critical floor; the allergy is scored at the floor and not written, and not
    for two sources either. -/
theorem allergy_not_bought_off :
    (∃ result failures, Orchestrator.run python { Clinical.deps with thresholds := floor_thresholds }
        allergy_pack V1_WEIGHTS no_betas ⟨"trace", "clinic", "patient:1", none⟩
        (.answers ⟨[said_allergy], 0, 0, by decide⟩) (fun _ => .answers web_answers) =
          .answers (result, failures) ∧
      result.governed ≠ [] ∧ ∀ g ∈ result.governed, g.record.decision ≠ .AUTO_WRITE) ∧
    ∃ scored, score_impact python no_features .CRITICAL no_betas = .ok scored ∧
      ∀ conf conflict signals,
        (decide conf scored conflict floor_thresholds false signals).decision ≠ .AUTO_WRITE := by
  constructor
  · obtain ⟨result, hrun, hgoverned⟩ := @run_answers python
      { Clinical.deps with thresholds := floor_thresholds } allergy_pack V1_WEIGHTS no_betas
      ⟨"trace", "clinic", "patient:1", none⟩ ⟨[said_allergy], 0, 0, by decide⟩ fun _ => web_answers
    refine ⟨result, _, hrun, ?_, fun g hg => ?_⟩
    · rw [hgoverned]
      decide +kernel
    · obtain ⟨spec, hspec, -, hstop⟩ := (impact_not_bought_off python python_nearest).1 _ _ _ _ _ _ _ _ _
        hrun g hg
      refine hstop le_rfl fun hlow => ?_
      simp only [allergy_pack] at hspec
      split at hspec
      · rw [← Option.some.inj hspec] at hlow
        cases hlow
      · cases hspec
  · have hanswers : (score_impact python no_features .CRITICAL no_betas).toOption.isSome = true := by
      decide +kernel
    cases hscore : score_impact python no_features .CRITICAL no_betas with
    | error exc => simp [hscore, Except.toOption] at hanswers
    | ok scored =>
        exact ⟨scored, rfl, fun conf conflict signals =>
          (impact_not_bought_off python python_nearest).2 _ _ _ hscore _ _ _ _ _ _ rfl le_rfl⟩

end GuardMem
