import GuardMem.Pipeline.Arithmetic
import Mathlib.Analysis.SpecialFunctions.Sigmoid

/-! Better evidence never loses an auto-write, over the reals.

    Each of the five terms is monotone in what it reads, the weights are not negative, and both branches of
    the squashing are the sigmoid. So CORRECT: evidence that improves componentwise scores a confidence no
    lower and a risk no higher, and is written wherever the worse is (`better_evidence_writes`). -/

namespace GuardMem

/-- What is known of a candidate, apart from what it is about. -/
structure Evidence where
  entropy : UnitOf ℝ
  span_entailment : UnitOf ℝ
  alignment : UnitOf ℝ
  schema_fit : UnitOf ℝ
  contradiction : UnitOf ℝ
  sources : ℕ
  features : Features ℝ
  sourced : 1 ≤ sources

/-- No feature is higher. -/
structure Features.Below (f g : Features ℝ) : Prop where
  impact_declared : f.impact_declared.1 ≤ g.impact_declared.1
  mutation_type : f.mutation_type.1 ≤ g.mutation_type.1
  scope : f.scope.1 ≤ g.scope.1
  graph_fanout : f.graph_fanout.1 ≤ g.graph_fanout.1
  pii_class : f.pii_class.1 ≤ g.pii_class.1
  irreversibility : f.irreversibility.1 ≤ g.irreversibility.1
  source_tier_risk : f.source_tier_risk.1 ≤ g.source_tier_risk.1
  novelty : f.novelty.1 ≤ g.novelty.1

/-- One body of evidence improves on another in every component. -/
structure Evidence.Improves (better worse : Evidence) : Prop where
  entropy : better.entropy.1 ≤ worse.entropy.1
  span_entailment : worse.span_entailment.1 ≤ better.span_entailment.1
  alignment : worse.alignment.1 ≤ better.alignment.1
  schema_fit : worse.schema_fit.1 ≤ better.schema_fit.1
  contradiction : better.contradiction.1 ≤ worse.contradiction.1
  sources : worse.sources ≤ better.sources
  features : better.features.Below worse.features

/-- No feature lowers the risk. -/
structure Betas.NonNegative (b : Betas ℝ) : Prop where
  impact_declared : 0 ≤ b.impact_declared
  mutation_type : 0 ≤ b.mutation_type
  scope : 0 ≤ b.scope
  graph_fanout : 0 ≤ b.graph_fanout
  pii_class : 0 ≤ b.pii_class
  irreversibility : 0 ≤ b.irreversibility
  source_tier_risk : 0 ≤ b.source_tier_risk
  novelty : 0 ≤ b.novelty

/-- What the candidate is about, and by which rules it is scored and decided. -/
structure Setting where
  weights : exact.Weights
  betas : Betas ℝ
  kind : ConflictKind
  hint : Hint
  impact_level : ImpactLevel
  tier : SourceTier
  obligations : List String
  signals : OverrideSignals
  thresholds : Cuts ℝ
  already_escalated : Bool

namespace Setting

noncomputable def confidence (s : Setting) (e : Evidence) : Except Exc (Report ℝ) :=
  exact.score_confidence e.entropy.1 e.span_entailment.1 s.tier e.alignment.1 e.schema_fit.1 e.sources s.kind
    e.contradiction.1 s.weights

noncomputable def risk (s : Setting) (e : Evidence) : Except Exc (UnitOf ℝ) :=
  exact.score_impact e.features s.impact_level s.betas

noncomputable def decision (s : Setting) (conf : Report ℝ) (risk : UnitOf ℝ) : Decision :=
  decision_of two_sources conf.confidence.1 conf.corroboration.1 risk.1 s.thresholds s.impact_level
    s.obligations s.hint s.already_escalated s.signals

end Setting

/-! ### Nothing is rounded -/

@[simp] theorem exact_add (a b : ℝ) : exact.add a b = a + b := rfl
@[simp] theorem exact_sub (a b : ℝ) : exact.sub a b = a - b := rfl
@[simp] theorem exact_mul (a b : ℝ) : exact.mul a b = a * b := rfl
@[simp] theorem exact_div (a b : ℝ) : exact.div a b = a / b := rfl
@[simp] theorem exact_round (a : ℝ) : exact.round a = a := rfl
@[simp] theorem exact_exp (a : ℝ) : exact.exp a = Real.exp a := rfl

theorem unit_of_total {name : String} {x : ℝ} (h : 0 ≤ x ∧ x ≤ 1) :
    ∃ u : UnitOf ℝ, unit_of name x = .ok u ∧ u.1 = x := ⟨⟨x, h⟩, dif_pos h, rfl⟩

variable {s : Setting} {e better worse : Evidence}

/-! ### The five terms -/

theorem multiplier_unit (tier : SourceTier) :
    0 ≤ exact.grounding_multiplier tier ∧ exact.grounding_multiplier tier ≤ 1 := by
  cases tier <;> simp only [Arithmetic.grounding_multiplier, exact_round] <;> norm_num

theorem grounding_exact (span : ℝ) (tier : SourceTier) (alignment : ℝ) :
    exact.grounding span tier alignment = span * exact.grounding_multiplier tier * alignment := rfl

theorem grounding_mono (tier : SourceTier) {span span' alignment alignment' : UnitOf ℝ}
    (hspan : span.1 ≤ span'.1) (halignment : alignment.1 ≤ alignment'.1) :
    exact.grounding span.1 tier alignment.1 ≤ exact.grounding span'.1 tier alignment'.1 := by
  obtain ⟨hm, -⟩ := multiplier_unit tier
  rw [grounding_exact, grounding_exact]
  exact mul_le_mul (mul_le_mul_of_nonneg_right hspan hm) halignment alignment.2.1
    (mul_nonneg span'.2.1 hm)

theorem grounding_unit (tier : SourceTier) (span alignment : UnitOf ℝ) :
    0 ≤ exact.grounding span.1 tier alignment.1 ∧ exact.grounding span.1 tier alignment.1 ≤ 1 := by
  obtain ⟨hm, hm'⟩ := multiplier_unit tier
  rw [grounding_exact]
  constructor
  · exact mul_nonneg (mul_nonneg span.2.1 hm) alignment.2.1
  · exact mul_le_one₀ (mul_le_one₀ span.2.2 hm hm') alignment.2.1 alignment.2.2

theorem corroboration_exact {n : ℕ} (hn : 1 ≤ n) : exact.corroboration n = .ok (corroborates n) := by
  rw [Arithmetic.corroboration, if_neg (by omega)]
  rfl

theorem corroborates_mono {m n : ℕ} (h : m ≤ n) : corroborates m ≤ corroborates n := by
  have hless : ((m - 1 : ℕ) : ℝ) ≤ ((n - 1 : ℕ) : ℝ) := by exact_mod_cast Nat.sub_le_sub_right h 1
  have hexp : Real.exp (-(8 / 10) * ((n - 1 : ℕ) : ℝ)) ≤ Real.exp (-(8 / 10) * ((m - 1 : ℕ) : ℝ)) :=
    Real.exp_le_exp.mpr (by linarith)
  exact sub_le_sub_left hexp 1

theorem corroborates_unit (n : ℕ) : 0 ≤ corroborates n ∧ corroborates n ≤ 1 := by
  have hnonneg : (0 : ℝ) ≤ ((n - 1 : ℕ) : ℝ) := Nat.cast_nonneg _
  have hle : Real.exp (-(8 / 10) * ((n - 1 : ℕ) : ℝ)) ≤ 1 := Real.exp_le_one_iff.mpr (by linarith)
  have hpos := Real.exp_pos (-(8 / 10) * ((n - 1 : ℕ) : ℝ))
  constructor <;> rw [corroborates] <;> linarith

theorem consistency_anti (kind : ConflictKind) {x y : ℝ} (h : x ≤ y) :
    exact.consistency kind y ≤ exact.consistency kind x := by
  unfold Arithmetic.consistency
  split_ifs
  · exact le_rfl
  · exact le_rfl
  · exact sub_le_sub_left h 1

theorem consistency_unit (kind : ConflictKind) (x : UnitOf ℝ) :
    0 ≤ exact.consistency kind x.1 ∧ exact.consistency kind x.1 ≤ 1 := by
  obtain ⟨hx, hx'⟩ := x.2
  unfold Arithmetic.consistency
  split_ifs
  · exact ⟨le_rfl, zero_le_one⟩
  · rw [exact_round]
    norm_num
  · rw [exact_sub]
    constructor <;> linarith

/-! ### The confidence -/

/-- The weighted sum of the five terms. -/
noncomputable def Setting.composite (s : Setting) (e : Evidence) : ℝ :=
  s.weights.uncertainty.1 * (1 - e.entropy.1) +
    s.weights.grounding.1 * exact.grounding e.span_entailment.1 s.tier e.alignment.1 +
    s.weights.schema_fit.1 * e.schema_fit.1 + s.weights.corroboration.1 * corroborates e.sources +
    s.weights.consistency.1 * exact.consistency s.kind e.contradiction.1

theorem composite_mono (h : better.Improves worse) : s.composite worse ≤ s.composite better := by
  have huncertainty := mul_le_mul_of_nonneg_left (sub_le_sub_left h.entropy 1) s.weights.uncertainty.2.1
  have hgrounding := mul_le_mul_of_nonneg_left (grounding_mono s.tier h.span_entailment h.alignment)
    s.weights.grounding.2.1
  have hschema := mul_le_mul_of_nonneg_left h.schema_fit s.weights.schema_fit.2.1
  have hsources := mul_le_mul_of_nonneg_left (corroborates_mono h.sources) s.weights.corroboration.2.1
  have hconsistency := mul_le_mul_of_nonneg_left (consistency_anti s.kind h.contradiction)
    s.weights.consistency.2.1
  unfold Setting.composite
  linarith

/-- Well-formed evidence is scored, by the clamped sum. -/
theorem confidence_total (s : Setting) (e : Evidence) : ∃ r, s.confidence e = .ok r ∧
    r.confidence.1 = min 1 (max 0 (s.composite e)) ∧ r.corroboration.1 = corroborates e.sources := by
  obtain ⟨entropy, hentropy, -⟩ := @unit_of_total "semantic_entropy" _ e.entropy.2
  obtain ⟨source, hsource, -⟩ := @unit_of_total "grounding" _
    (grounding_unit s.tier e.span_entailment e.alignment)
  obtain ⟨schema, hschema, -⟩ := @unit_of_total "schema_fit" _ e.schema_fit.2
  obtain ⟨cor, hcor, hcoreq⟩ := @unit_of_total "corroboration" _ (corroborates_unit e.sources)
  obtain ⟨con, hcon, -⟩ := @unit_of_total "consistency" _ (consistency_unit s.kind e.contradiction)
  obtain ⟨c, hc, hceq⟩ := @unit_of_total "confidence" (min 1 (max 0 (s.composite e)))
    ⟨le_min zero_le_one (le_max_left _ _), min_le_left _ _⟩
  refine ⟨⟨entropy, source, schema, cor, con, c⟩, ?_, hceq, hcoreq⟩
  simp only [Setting.confidence, Arithmetic.score_confidence, corroboration_exact e.sourced, bind_ok,
    Except.ok.injEq, exists_eq_left']
  exact ⟨entropy, hentropy, source, hsource, schema, hschema, cor, hcor, con, hcon, c, hc, rfl⟩

/-! ### The risk -/

/-- Both branches of the squashing are the sigmoid. -/
theorem sigmoid_exact (z : ℝ) : exact.sigmoid z = Real.sigmoid z := by
  unfold Arithmetic.sigmoid
  split_ifs
  · rw [Real.sigmoid_def, ← one_div]
    rfl
  · have hpos := Real.exp_pos z
    rw [Real.sigmoid_def, Real.exp_neg]
    simp only [exact_div, exact_add, exact_exp]
    field_simp
    ring

theorem floor_unit (level : ImpactLevel) : 0 ≤ exact.risk_floor level ∧ exact.risk_floor level ≤ 1 := by
  cases level <;> simp only [Arithmetic.risk_floor, exact_round] <;> norm_num

theorem weighted_exact (f : Features ℝ) (b : Betas ℝ) : exact.weighted f b =
    b.impact_declared * f.impact_declared.1 + b.mutation_type * f.mutation_type.1 + b.scope * f.scope.1 +
      b.graph_fanout * f.graph_fanout.1 + b.pii_class * f.pii_class.1 +
      b.irreversibility * f.irreversibility.1 + b.source_tier_risk * f.source_tier_risk.1 +
      b.novelty * f.novelty.1 + b.bias := rfl

theorem weighted_mono {f g : Features ℝ} {b : Betas ℝ} (hb : b.NonNegative) (h : f.Below g) :
    exact.weighted f b ≤ exact.weighted g b := by
  rw [weighted_exact, weighted_exact]
  gcongr
  · exact hb.impact_declared
  · exact h.impact_declared
  · exact hb.mutation_type
  · exact h.mutation_type
  · exact hb.scope
  · exact h.scope
  · exact hb.graph_fanout
  · exact h.graph_fanout
  · exact hb.pii_class
  · exact h.pii_class
  · exact hb.irreversibility
  · exact h.irreversibility
  · exact hb.source_tier_risk
  · exact h.source_tier_risk
  · exact hb.novelty
  · exact h.novelty

theorem risk_total (s : Setting) (e : Evidence) : ∃ r, s.risk e = .ok r ∧
    r.1 = max (Real.sigmoid (exact.weighted e.features s.betas)) (exact.risk_floor s.impact_level) := by
  obtain ⟨hfloor, hfloor'⟩ := floor_unit s.impact_level
  obtain ⟨r, hr, heq⟩ := @unit_of_total "risk"
    (max (Real.sigmoid (exact.weighted e.features s.betas)) (exact.risk_floor s.impact_level))
    ⟨hfloor.trans (le_max_right _ _), max_le (Real.sigmoid_le_one _) hfloor'⟩
  refine ⟨r, ?_, heq⟩
  rw [Setting.risk, Arithmetic.score_impact, sigmoid_exact]
  exact hr

/-! ### The decision -/

/-- The rules that corroboration silences stay silent with more of it. -/
theorem rules_of_corroborated {level : ImpactLevel} {obligations : List String} {hint : Hint}
    {signals : OverrideSignals} {esc c c' : Bool} (hc : c = true → c' = true)
    (h : ∀ rule ∈ rules_of level obligations hint signals esc c, rule.2.1 = false) :
    ∀ rule ∈ rules_of level obligations hint signals esc c', rule.2.1 = false := by
  cases c with
  | true =>
      rw [hc rfl]
      exact h
  | false =>
      simp only [rules_of, List.forall_mem_cons] at h ⊢
      refine ⟨h.1, h.2.1, ?_, h.2.2.2⟩
      have hrequired : signals.requires_corroboration = false := by simpa using h.2.2.1
      rw [hrequired, Bool.false_and]

/-- More confidence, more corroboration and less risk keep a write. -/
theorem decision_of_auto_mono {cut C C' cor cor' R R' : ℝ} {t : Cuts ℝ} {level : ImpactLevel}
    {obligations : List String} {hint : Hint} {esc : Bool} {signals : OverrideSignals} (hC : C ≤ C')
    (hcor : cor ≤ cor') (hR : R' ≤ R)
    (h : decision_of cut C cor R t level obligations hint esc signals = .AUTO_WRITE) :
    decision_of cut C' cor' R' t level obligations hint esc signals = .AUTO_WRITE := by
  obtain ⟨hregion, hsilent⟩ := decision_of_auto.mp h
  refine decision_of_auto.mpr ⟨?_, rules_of_corroborated ?_ hsilent⟩
  · rcases hregion with ⟨hmid, hlow⟩ | ⟨hhi, hlow, hcut⟩
    · exact Or.inl ⟨hmid.trans hC, hR.trans_lt hlow⟩
    · exact Or.inr ⟨hhi.trans hC, hR.trans_lt hlow, hcut.trans hcor⟩
  · rw [decide_eq_true_eq, decide_eq_true_eq]
    exact fun hcut => hcut.trans hcor

/-- CORRECT: better evidence is scored a confidence no lower and a risk no higher, and is written wherever
    the worse is. -/
theorem better_evidence_writes (s : Setting) (hbetas : s.betas.NonNegative) (better worse : Evidence)
    (h : better.Improves worse) :
    ∃ conf conf' risk risk', s.confidence worse = .ok conf ∧ s.confidence better = .ok conf' ∧
      s.risk worse = .ok risk ∧ s.risk better = .ok risk' ∧
      (0 ≤ conf.confidence.1 ∧ conf.confidence.1 ≤ conf'.confidence.1 ∧ conf'.confidence.1 ≤ 1) ∧
      (exact.risk_floor s.impact_level ≤ risk'.1 ∧ risk'.1 ≤ risk.1) ∧
      (s.decision conf risk = .AUTO_WRITE → s.decision conf' risk' = .AUTO_WRITE) := by
  obtain ⟨conf, hconf, hC, hcor⟩ := confidence_total s worse
  obtain ⟨conf', hconf', hC', hcor'⟩ := confidence_total s better
  obtain ⟨risk, hrisk, hR⟩ := risk_total s worse
  obtain ⟨risk', hrisk', hR'⟩ := risk_total s better
  have hconfidence : conf.confidence.1 ≤ conf'.confidence.1 := by
    rw [hC, hC']
    exact min_le_min_left _ (max_le_max_left _ (composite_mono h))
  have hcorroboration : conf.corroboration.1 ≤ conf'.corroboration.1 := by
    rw [hcor, hcor']
    exact corroborates_mono h.sources
  have hriskle : risk'.1 ≤ risk.1 := by
    rw [hR, hR']
    exact max_le_max_right _ (Real.sigmoid_monotone (weighted_mono hbetas h.features))
  refine ⟨conf, conf', risk, risk', hconf, hconf', hrisk, hrisk',
    ⟨conf.confidence.2.1, hconfidence, conf'.confidence.2.2⟩, ⟨?_, hriskle⟩,
    decision_of_auto_mono hconfidence hcorroboration hriskle⟩
  rw [hR']
  exact le_max_right _ _

namespace Clinical

/-- So many hundredths. -/
noncomputable def hundredths (n : ℤ) : ℝ := n / ((100 : ℕ) : ℝ)

theorem share_unit (n : ℕ) : 0 ≤ hundredths (min n 100 : ℕ) ∧ hundredths (min n 100 : ℕ) ≤ 1 := by
  have hle : ((min n 100 : ℕ) : ℝ) ≤ 100 := by exact_mod_cast min_le_right n 100
  simp only [hundredths, Int.cast_natCast, Nat.cast_ofNat]
  constructor
  · positivity
  · linarith

/-- So many hundredths, at most one. -/
noncomputable def share (n : ℕ) : UnitOf ℝ := ⟨hundredths (min n 100 : ℕ), share_unit n⟩

theorem shares_sum :
    let total := [(share 25).1, (share 10).1, (share 15).1, (share 15).1].foldl exact.add (share 35).1
    |total - 1| ≤ max (1 / 10 ^ 9 * max |total| 1) (1 / 10 ^ 9) := by
  norm_num [share, hundredths, exact_add]

theorem taus_ordered : hundredths 45 < hundredths 60 ∧ hundredths 60 < hundredths 78 := by
  norm_num [hundredths]

theorem rhos_ordered : hundredths 35 < hundredths 70 := by norm_num [hundredths]

/-- A fact of low impact, under the first weights, coefficients and cut points. -/
noncomputable def plain_setting : Setting where
  weights := ⟨share 35, share 25, share 10, share 15, share 15, shares_sum⟩
  betas := ⟨hundredths 220, hundredths 160, hundredths 130, hundredths 90, hundredths 110, hundredths 140, 1,
    hundredths 50, hundredths (-340)⟩
  kind := .NONE
  hint := .coexist
  impact_level := .LOW
  tier := .VERIFIED_USER
  obligations := []
  signals := ⟨false, .VERIFIED_USER, .COEXIST, false, false, false, "v1"⟩
  thresholds := ⟨hundredths 45, hundredths 60, hundredths 78, hundredths 35, hundredths 70, taus_ordered,
    rhos_ordered⟩
  already_escalated := false

/-- A span that entails the claim to `n` hundredths, from so many sources, on a fact that weighs nothing. -/
noncomputable def entailed (n sources : ℕ) (h : 1 ≤ sources) : Evidence :=
  ⟨share 20, share n, share 90, share 100, share 10, sources,
    ⟨share 0, share 0, share 0, share 0, share 0, share 0, share 0, share 0⟩, h⟩

end Clinical

open Clinical in
/-- The claim is written on one source, and on two that entail it more. -/
theorem entailed_writes : ∃ conf risk, plain_setting.confidence (entailed 95 2 one_le_two) = .ok conf ∧
    plain_setting.risk (entailed 95 2 one_le_two) = .ok risk ∧
    plain_setting.decision conf risk = .AUTO_WRITE := by
  have hbetas : plain_setting.betas.NonNegative := by constructor <;> norm_num [plain_setting, hundredths]
  have himproves : (entailed 95 2 one_le_two).Improves (entailed 90 1 le_rfl) := by
    refine ⟨le_rfl, ?_, le_rfl, le_rfl, le_rfl, one_le_two, by constructor <;> exact le_rfl⟩
    norm_num [entailed, share, hundredths]
  obtain ⟨conf, conf', risk, risk', hconf, hconf', hrisk, hrisk', -, -, hkeeps⟩ :=
    better_evidence_writes plain_setting hbetas (entailed 95 2 one_le_two) (entailed 90 1 le_rfl) himproves
  refine ⟨conf', risk', hconf', hrisk', hkeeps ?_⟩
  obtain ⟨c, hc, hC, -⟩ := confidence_total plain_setting (entailed 90 1 le_rfl)
  obtain ⟨r, hr, hR⟩ := risk_total plain_setting (entailed 90 1 le_rfl)
  obtain rfl := Except.ok.inj (hconf.symm.trans hc)
  obtain rfl := Except.ok.inj (hrisk.symm.trans hr)
  refine decision_of_auto.mpr ⟨Or.inl ⟨?_, ?_⟩, ?_⟩
  · have hconsistent : exact.consistency .NONE (share 10).1 = 90 / 100 := by
      rw [Arithmetic.consistency, if_neg (by decide), if_neg (by decide)]
      norm_num [share, hundredths]
    have hcomposite : plain_setting.composite (entailed 90 1 le_rfl) = 35 / 100 * (80 / 100) +
        25 / 100 * (90 / 100 * (95 / 100) * (90 / 100)) + 10 / 100 + 15 / 100 * (90 / 100) := by
      simp only [Setting.composite, plain_setting, entailed, hconsistent]
      norm_num [share, hundredths, grounding_exact, Arithmetic.grounding_multiplier, corroborates]
    rw [hC, hcomposite]
    norm_num [plain_setting, hundredths]
  · rw [hR, weighted_exact]
    refine max_lt ?_ (by norm_num [plain_setting, hundredths, Arithmetic.risk_floor])
    have hweighted : Real.sigmoid (-340 / 100) < 35 / 100 := by
      have hexp := Real.add_one_le_exp (340 / 100 : ℝ)
      rw [Real.sigmoid_def, inv_lt_comm₀ (by positivity) (by norm_num)]
      norm_num at hexp ⊢
      linarith
    norm_num [plain_setting, entailed, share, hundredths] at hweighted ⊢
    exact hweighted
  · simp [plain_setting, rules_of]

end GuardMem
