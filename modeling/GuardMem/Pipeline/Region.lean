import GuardMem.Pipeline.Decision
import Mathlib.Data.List.Perm.Basic

/-! Where `decide` auto-writes, and what the overrides can do to it.

    Permissiveness is a linear order and an override proposes through its maximum, so the rules commute
    and only tighten. CORRECT: a candidate is written exactly in the declared region of confidence, risk
    and corroboration with no override met, whatever the thresholds (`auto_write_region`). -/

namespace GuardMem

variable {conf : ConfidenceReport} {risk : RiskVerdict} {conflict : ConflictReport} {t : Thresholds}
  {signals : OverrideSignals} {esc : Bool}

/-! ### The overrides, in any order -/

theorem permissiveness_inj {a b : Decision} : permissiveness a = permissiveness b ↔ a = b := by
  cases a <;> cases b <;> simp [permissiveness]

theorem permissiveness_le_zero {d : Decision} : permissiveness d ≤ 0 ↔ d = .AUTO_WRITE := by
  cases d <;> simp [permissiveness]

/-- What a rule makes of the decision so far. -/
def propose (current : Decision) (rule : String × Bool × Decision) : Decision :=
  if rule.2.1 then tighten current rule.2.2 else current

theorem permissiveness_propose (d : Decision) (rule : String × Bool × Decision) :
    permissiveness (propose d rule) =
      max (permissiveness d) (if rule.2.1 then permissiveness rule.2.2 else 0) := by
  unfold propose
  split
  · exact permissiveness_tighten d rule.2.2
  · omega

theorem propose_comm (d : Decision) (x y : String × Bool × Decision) :
    propose (propose d x) y = propose (propose d y) x := by
  rw [← permissiveness_inj]
  simp only [permissiveness_propose]
  omega

/-- The codes do not matter to the decision. -/
theorem foldl_apply_rule_fst {rs : List (String × Bool × Decision)} {acc : Decision × List String} :
    (rs.foldl apply_rule acc).1 = rs.foldl propose acc.1 := by
  induction rs generalizing acc with
  | nil => rfl
  | cons r rs ih =>
      have hhead : (apply_rule acc r).1 = propose acc.1 r := by
        unfold apply_rule propose
        split <;> rfl
      rw [List.foldl_cons, List.foldl_cons, ih, hhead]

theorem apply_rules_perm {rs rs' : List (String × Bool × Decision)} (h : rs.Perm rs')
    (acc : Decision × List String) : (rs.foldl apply_rule acc).1 = (rs'.foldl apply_rule acc).1 := by
  rw [foldl_apply_rule_fst, foldl_apply_rule_fst]
  exact h.foldl_eq' (fun x _ y _ d => propose_comm d x y) acc.1

/-- The fewer rules fire, the more permissive the loop ends. -/
theorem foldl_apply_rule_mono {rs rs' : List (String × Bool × Decision)}
    (h : List.Forall₂ (fun r r' => r.2.2 = r'.2.2 ∧ (r.2.1 = true → r'.2.1 = true)) rs rs') :
    ∀ {acc acc' : Decision × List String}, permissiveness acc.1 ≤ permissiveness acc'.1 →
      permissiveness (rs.foldl apply_rule acc).1 ≤ permissiveness (rs'.foldl apply_rule acc').1 := by
  induction h with
  | nil => exact id
  | @cons r r' rs rs' hr _ ih =>
      intro acc acc' hacc
      refine ih ?_
      obtain ⟨hd, hfires⟩ := hr
      unfold apply_rule
      by_cases hf : r.2.1 = true
      · rw [if_pos hf, if_pos (hfires hf), permissiveness_tighten, permissiveness_tighten, hd]
        exact max_le_max_right _ hacc
      · rw [if_neg hf]
        split
        · rw [permissiveness_tighten]
          exact hacc.trans (le_max_left _ _)
        · exact hacc

/-- No override proposes a write, so the loop writes where the matrix does and none fires. -/
theorem foldl_apply_rule_auto {rs : List (String × Bool × Decision)} {cell : Decision}
    (hrules : ∀ rule ∈ rs, rule.2.2 ≠ .AUTO_WRITE) :
    (rs.foldl apply_rule (cell, [])).1 = .AUTO_WRITE ↔
      cell = .AUTO_WRITE ∧ ∀ rule ∈ rs, rule.2.1 = false := by
  obtain ⟨hcell, hfires⟩ := @foldl_apply_rule rs (cell, [])
  constructor
  · intro h
    rw [h] at hcell hfires
    refine ⟨permissiveness_le_zero.mp hcell, fun rule hrule => ?_⟩
    by_contra hfire
    exact hrules rule hrule (permissiveness_le_zero.mp (hfires rule hrule (by simpa using hfire)))
  · rintro ⟨rfl, hnone⟩
    rw [foldl_apply_rule_fst]
    clear hcell hfires hrules
    induction rs with
    | nil => rfl
    | cons r rs ih =>
        rw [List.foldl_cons, propose, hnone r List.mem_cons_self, if_neg Bool.false_ne_true]
        exact ih fun rule hrule => hnone rule (List.mem_cons_of_mem r hrule)

theorem apply_overrides_auto {cell : Decision} {corroborated : Bool} :
    (apply_overrides cell risk conflict signals esc corroborated).1 = .AUTO_WRITE ↔
      cell = .AUTO_WRITE ∧ ∀ rule ∈ rules risk conflict signals esc corroborated, rule.2.1 = false :=
  foldl_apply_rule_auto (by cases esc <;> simp [rules])

/-! ### The bands -/

def Thresholds.cuts (t : Thresholds) : Cuts ℚ :=
  ⟨t.tau_lo.1, t.tau_mid.1, t.tau_hi.1, t.rho_lo.1, t.rho_hi.1, t.taus_ordered, t.rhos_ordered⟩

namespace Cuts

variable {K : Type} [LinearOrder K] {t : Cuts K} {x : K}

theorem confidence_band_mid : 2 ≤ t.confidence_band x ↔ t.tau_mid ≤ x := by
  have hmid := t.taus_ordered.2
  unfold confidence_band
  split
  · next h => exact iff_of_true (by decide) (hmid.le.trans h)
  · split
    · next h => exact iff_of_true le_rfl h
    · next h => split <;> exact iff_of_false (by decide) h

theorem confidence_band_hi : t.confidence_band x = 3 ↔ t.tau_hi ≤ x := by
  unfold confidence_band
  split
  · next h => exact iff_of_true rfl h
  · next h => split_ifs <;> exact iff_of_false (by decide) h

theorem risk_band_zero : t.risk_band x = 0 ↔ x < t.rho_lo := by
  have hlo := t.rhos_ordered
  unfold risk_band
  split
  · next h => exact iff_of_false (by decide) (not_lt.mpr (hlo.le.trans h))
  · split
    · next h => exact iff_of_false (by decide) (not_lt.mpr h)
    · next h => exact iff_of_true rfl (not_le.mp h)

theorem risk_band_one : t.risk_band x ≤ 1 ↔ x < t.rho_hi := by
  unfold risk_band
  split
  · next h => exact iff_of_false (by decide) (not_lt.mpr h)
  · next h => split <;> exact iff_of_true (by decide) (not_le.mp h)

end Cuts

theorem confidence_band_cuts (confidence : ℚ) (t : Thresholds) :
    confidence_band confidence t = t.cuts.confidence_band confidence := rfl

theorem risk_band_cuts (risk : ℚ) (t : Thresholds) : risk_band risk t = t.cuts.risk_band risk := rfl

/-- The grid writes in its two lower cells of the lowest risk, and in the starred one for two sources. -/
theorem from_matrix_auto : ∀ {c : Fin 4} {r : Fin 3} {corroborated : Bool},
    (from_matrix c r corroborated).1 = .AUTO_WRITE ↔
      (2 ≤ c ∧ r = 0) ∨ (c = 3 ∧ r ≤ 1 ∧ corroborated = true) := by
  decide

/-! ### The region -/

/-- Where the matrix writes: risk is low, or it is middling and both confidence and corroboration are
    high. -/
def InAutoRegion (conf : ConfidenceReport) (risk : RiskVerdict) (t : Thresholds) : Prop :=
  (t.tau_mid.1 ≤ conf.confidence.1 ∧ risk.risk.1 < t.rho_lo.1) ∨
    (t.tau_hi.1 ≤ conf.confidence.1 ∧ risk.risk.1 < t.rho_hi.1 ∧ CORROBORATED ≤ conf.corroboration.1)

/-- None of the seven overrides is met. -/
@[mk_iff]
structure Unoverridden (conf : ConfidenceReport) (risk : RiskVerdict) (conflict : ConflictReport)
    (signals : OverrideSignals) : Prop where
  injection : signals.injection_detected = false
  web_source : signals.source_tier = .RETRIEVED_WEB →
    risk.impact_level ≠ .HIGH ∧ risk.impact_level ≠ .CRITICAL
  corroboration : signals.requires_corroboration = true → CORROBORATED ≤ conf.corroboration.1
  hint : conflict.resolution_hint ≠ .escalate
  capacity : signals.budget_exhausted = false ∧ signals.circuit_open = false
  review : ObligationKind.REQUIRE_REVIEW.value ∉ risk.obligations
  retraction : risk.impact_level = .CRITICAL → signals.mutation ≠ .RETRACT

theorem rules_unfired : (∀ rule ∈ rules risk conflict signals esc
    (Decidable.decide (CORROBORATED ≤ conf.corroboration.1)), rule.2.1 = false) ↔
      Unoverridden conf risk conflict signals := by
  simp only [rules, List.forall_mem_cons, List.not_mem_nil, false_implies, implies_true, and_true]
  constructor
  · rintro ⟨hinjection, hweb, hcorroboration, hhint, hcapacity, hreview, hretraction⟩
    refine ⟨hinjection, fun h => ?_, fun h => ?_, by simpa using hhint, by simpa using hcapacity,
      by simpa using hreview, by simpa using hretraction⟩
    · simpa [h] using hweb
    · simpa [h] using hcorroboration
  · rintro ⟨hinjection, hweb, hcorroboration, hhint, hcapacity, hreview, hretraction⟩
    refine ⟨hinjection, ?_, ?_, by simpa using hhint, by simpa using hcapacity, by simpa using hreview,
      by simpa using hretraction⟩
    · by_cases h : signals.source_tier = .RETRIEVED_WEB
      · simpa [h] using hweb h
      · simp [h]
    · cases h : signals.requires_corroboration with
      | false => rfl
      | true => simpa using hcorroboration h

/-- The matrix's cell for a candidate. -/
def matrix_cell (conf : ConfidenceReport) (risk : RiskVerdict) (t : Thresholds) : Decision :=
  (from_matrix (confidence_band conf.confidence.1 t) (risk_band risk.risk.1 t)
    (CORROBORATED ≤ conf.corroboration.1)).1

theorem matrix_cell_auto : matrix_cell conf risk t = .AUTO_WRITE ↔ InAutoRegion conf risk t := by
  rw [matrix_cell, from_matrix_auto, confidence_band_cuts, risk_band_cuts, Cuts.confidence_band_mid,
    Cuts.confidence_band_hi, Cuts.risk_band_zero, Cuts.risk_band_one, decide_eq_true_eq]
  rfl

/-- The last rewrite: a second escalation is a review. -/
def settle (already_escalated : Bool) (d : Decision) : Decision :=
  if already_escalated && d == .ESCALATE then .HITL_REVIEW else d

theorem settle_auto {d : Decision} : settle esc d = .AUTO_WRITE ↔ d = .AUTO_WRITE := by
  cases esc <;> cases d <;> simp [settle]

theorem settle_not_repeated {d : Decision} : settle true d ≠ .ESCALATE := by
  cases d <;> simp [settle]

theorem settle_mono {d d' : Decision} (h : permissiveness d ≤ permissiveness d') :
    permissiveness (settle esc d) ≤ permissiveness (settle esc d') := by
  cases esc <;> cases d <;> cases d' <;> simp_all [settle, permissiveness]

theorem le_settle {d : Decision} : permissiveness d ≤ permissiveness (settle esc d) := by
  cases esc <;> cases d <;> simp [settle, permissiveness]

/-- The decision is the matrix's, tightened and settled. -/
theorem decide_decision : (decide conf risk conflict t esc signals).decision =
    settle esc (apply_overrides (matrix_cell conf risk t) risk conflict signals esc
      (CORROBORATED ≤ conf.corroboration.1)).1 := by
  unfold decide settle
  dsimp only
  split
  · next h => exact (if_pos h).symm
  · next h => exact (if_neg h).symm

theorem decide_auto : (decide conf risk conflict t esc signals).decision = .AUTO_WRITE ↔
    InAutoRegion conf risk t ∧ Unoverridden conf risk conflict signals := by
  rw [decide_decision, settle_auto, apply_overrides_auto, rules_unfired, matrix_cell_auto]

/-- More obligations, stricter decision. -/
theorem decide_obligations {obligations : List String} (hknown : ∀ o ∈ obligations,
      o ∈ [ObligationKind.REQUIRE_REVIEW, .REQUIRE_CORROBORATION, .REDACT_FIELD].map ObligationKind.value)
    (h : risk.obligations ⊆ obligations) :
    permissiveness (decide conf risk conflict t esc signals).decision ≤
      permissiveness (decide conf { risk with obligations := obligations, obligations_known := hknown }
        conflict t esc signals).decision := by
  have hreview : risk.obligations.contains ObligationKind.REQUIRE_REVIEW.value = true →
      obligations.contains ObligationKind.REQUIRE_REVIEW.value = true := by
    rw [List.contains_iff_mem, List.contains_iff_mem]
    exact fun hmem => h hmem
  rw [decide_decision, decide_decision]
  refine settle_mono (foldl_apply_rule_mono ?_ le_rfl)
  simpa [rules] using hreview

/-- CORRECT: a candidate is written exactly in the declared region with no override met; the overrides
    decide the same in any order and only tighten; more obligations never loosen a decision; and nothing is
    escalated twice. -/
theorem auto_write_region (conf : ConfidenceReport) (risk : RiskVerdict) (conflict : ConflictReport)
    (t : Thresholds) (already_escalated : Bool) (signals : OverrideSignals) :
    ((decide conf risk conflict t already_escalated signals).decision = .AUTO_WRITE ↔
      InAutoRegion conf risk t ∧ Unoverridden conf risk conflict signals) ∧
    (∀ (cell : Decision) (corroborated : Bool) (rs : List (String × Bool × Decision)),
      rs.Perm (rules risk conflict signals already_escalated corroborated) →
      (rs.foldl apply_rule (cell, [])).1 =
          (apply_overrides cell risk conflict signals already_escalated corroborated).1 ∧
        permissiveness cell ≤ permissiveness (rs.foldl apply_rule (cell, [])).1) ∧
    permissiveness (matrix_cell conf risk t) ≤
      permissiveness (decide conf risk conflict t already_escalated signals).decision ∧
    (∀ obligations hknown, risk.obligations ⊆ obligations →
      permissiveness (decide conf risk conflict t already_escalated signals).decision ≤
        permissiveness (decide conf { risk with obligations := obligations, obligations_known := hknown }
          conflict t already_escalated signals).decision) ∧
    (already_escalated = true →
      (decide conf risk conflict t already_escalated signals).decision ≠ .ESCALATE) := by
  refine ⟨decide_auto, fun cell corroborated rs hrs => ⟨apply_rules_perm hrs _, ?_⟩, ?_,
    fun obligations hknown h => decide_obligations hknown h, ?_⟩
  · exact (foldl_apply_rule (cell, [])).1
  · rw [decide_decision]
    exact (foldl_apply_rule (matrix_cell conf risk t, [])).1.trans le_settle
  · rintro rfl
    rw [decide_decision]
    exact settle_not_repeated

end GuardMem
