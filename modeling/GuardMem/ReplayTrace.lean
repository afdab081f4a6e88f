import GuardMem.Observability.Reread
import GuardMem.RiskFloor

/-! What `scripts/replay_trace.py` makes of a recorded decision.

    It reads the record back from its audit payload, rebuilds the override context from the risk features
    and decides again. Two signals invert exactly, four are taken as benign. CORRECT: under unchanged
    thresholds the replay agrees exactly where the predicate does not require corroboration, and where it
    does only that rule's code is missing (`replay_agrees_iff`). -/

namespace GuardMem

variable (py : Python)

/-! ### The script -/

/-- `math.isclose(a, b, abs_tol=1e-9)`. -/
def isclose (a b : ℚ) : Prop := |a - b| ≤ max (1 / 10 ^ 9 * max |a| |b|) (1 / 10 ^ 9)

instance (a b : ℚ) : Decidable (isclose a b) := inferInstanceAs (Decidable (_ ≤ _))

/-- `features.get(name)`. -/
def feature (features : List (String × ℚ)) (name : String) : Option ℚ :=
  (features.find? fun f => f.1 == name).map Prod.snd

/-- Invert `source_tier_risk`; the lowest trust when it is missing or matches none. -/
def tier_from (risk : Option ℚ) : SourceTier :=
  match risk with
  | none => .RETRIEVED_WEB
  | some risk =>
      ([.TRUSTED_SYSTEM, .VERIFIED_USER, .UNVERIFIED_USER, .TOOL_OUTPUT, .RETRIEVED_WEB].find?
        fun tier : SourceTier => Decidable.decide (isclose (source_tier_risk py tier) risk)).getD
          .RETRIEVED_WEB

/-- Invert `mutation_type`; the strictest when it is missing or matches none. -/
def mutation_from (feature : Option ℚ) : MutationType :=
  match feature with
  | none => .RETRACT
  | some feature =>
      ([.COEXIST, .REFINE, .SUPERSEDE, .RETRACT].find?
        fun mutation : MutationType => Decidable.decide (isclose (mutation.risk_feature py) feature)).getD
          .RETRACT

/-- Rebuild the override context from what the record kept. -/
def signals_for (recorded : DecisionRecord) : OverrideSignals where
  injection_detected := false
  source_tier := tier_from py (feature recorded.risk.features "source_tier_risk")
  mutation := mutation_from py (feature recorded.risk.features "mutation_type")
  requires_corroboration := false
  budget_exhausted := false
  circuit_open := false
  policy_version := recorded.policy_version

/-- Re-run `decide` on the inputs the record carries, under the thresholds in force. -/
def replay (thresholds : Thresholds) (recorded : DecisionRecord) (signals : OverrideSignals) :
    DecisionRecord :=
  decide recorded.confidence recorded.risk recorded.conflict thresholds recorded.escalated_from.isSome
    signals

variable {py}

/-! ### The two mappings invert -/

theorem isclose_refl (a : ℚ) : isclose a a := by
  simp [isclose]

/-- Values near numbers that lie apart are not close. -/
theorem eq_of_isclose {α : Type} {f exact : α → ℚ} (hnear : ∀ x, |f x - exact x| ≤ 1 / 100)
    (hunit : ∀ x, 0 ≤ exact x ∧ exact x ≤ 1) (hapart : ∀ x y, x ≠ y → 1 / 20 ≤ |exact x - exact y|)
    {x y : α} (h : isclose (f x) (f y)) : x = y := by
  by_contra hne
  have hbound : ∀ z, |f z| ≤ 2 := by
    intro z
    obtain ⟨hlow, hhigh⟩ := abs_le.mp (hnear z)
    have := hunit z
    exact abs_le.mpr ⟨by linarith, by linarith⟩
  have hsmall : |f x - f y| ≤ 1 / 100 := by
    refine le_trans h (max_le ?_ (by norm_num))
    have hmax : max |f x| |f y| ≤ 2 := max_le (hbound x) (hbound y)
    linarith
  have hfar := hapart x y hne
  have htri : |exact x - exact y| ≤ |exact x - f x| + |f x - f y| + |f y - exact y| := by
    calc |exact x - exact y| = |(exact x - f x) + (f x - f y) + (f y - exact y)| := by ring_nf
      _ ≤ _ := (abs_add_le _ _).trans (add_le_add_left (abs_add_le _ _) _)
  rw [abs_sub_comm (exact x) (f x)] at htri
  linarith [hnear x, hnear y]

/-- So the first member that is close to a member's value is that member. -/
theorem find_isclose {α : Type} {f exact : α → ℚ} (hnear : ∀ x, |f x - exact x| ≤ 1 / 100)
    (hunit : ∀ x, 0 ≤ exact x ∧ exact x ≤ 1) (hapart : ∀ x y, x ≠ y → 1 / 20 ≤ |exact x - exact y|)
    {members : List α} {x : α} (hx : x ∈ members) :
    members.find? (fun m => Decidable.decide (isclose (f m) (f x))) = some x := by
  obtain ⟨m, hm⟩ : ∃ m, members.find? (fun m => Decidable.decide (isclose (f m) (f x))) = some m :=
    Option.isSome_iff_exists.mp (List.find?_isSome.mpr ⟨x, hx, decide_eq_true (isclose_refl _)⟩)
  have hclose : isclose (f m) (f x) := by simpa using List.find?_some hm
  rw [hm, eq_of_isclose hnear hunit hapart hclose]

/-- A constant of the unit interval and its distance from 1, as doubles. -/
theorem Python.Nearest.close (hpy : py.Nearest) {q : ℚ} (h0 : 0 ≤ q) (h1 : q ≤ 1) :
    |py.round q - q| ≤ 1 / 1000 := (hpy q h0 h1).trans (by norm_num)

theorem Python.Nearest.sub_close (hpy : py.Nearest) {q : ℚ} (h0 : 1 / 2 ≤ q) (h1 : q ≤ 99 / 100) :
    |py.sub 1 (py.round q) - (1 - q)| ≤ 1 / 100 := by
  have hround := abs_le.mp (hpy.close (by linarith) (by linarith : q ≤ 1))
  have hsub := abs_le.mp (hpy.close (q := 1 - py.round q) (by linarith) (by linarith))
  exact abs_le.mpr ⟨by rw [Python.sub]; linarith, by rw [Python.sub]; linarith⟩

/-- A tier's risk before rounding. -/
def SourceTier.exact_risk : SourceTier → ℚ
  | .TRUSTED_SYSTEM => 0
  | .VERIFIED_USER => 1 - 95 / 100
  | .UNVERIFIED_USER => 1 - 8 / 10
  | .TOOL_OUTPUT => 1 - 85 / 100
  | .RETRIEVED_WEB => 1 - 6 / 10

theorem tier_from_risk (hpy : py.Nearest) (tier : SourceTier) :
    tier_from py (some (source_tier_risk py tier)) = tier := by
  have hfind := @find_isclose SourceTier (source_tier_risk py) SourceTier.exact_risk (fun t => ?_) (fun t => ?_)
    (fun t u hne => ?_) [.TRUSTED_SYSTEM, .VERIFIED_USER, .UNVERIFIED_USER, .TOOL_OUTPUT, .RETRIEVED_WEB]
    tier (by cases tier <;> simp)
  · rw [tier_from, hfind]
    rfl
  · cases t with
    | TRUSTED_SYSTEM =>
        simp [SourceTier.exact_risk, source_tier_risk, SourceTier.grounding_multiplier, Python.sub, py.round_zero]
    | _ => exact hpy.sub_close (by norm_num) (by norm_num)
  · cases t <;> norm_num [SourceTier.exact_risk]
  · cases t <;> cases u <;>
      first | exact absurd rfl hne | norm_num [SourceTier.exact_risk, abs_le, le_abs]

/-- A mutation's feature before rounding. -/
def MutationType.exact_feature : MutationType → ℚ
  | .COEXIST => 0
  | .REFINE => 3 / 10
  | .SUPERSEDE => 7 / 10
  | .RETRACT => 1

theorem mutation_from_feature (hpy : py.Nearest) (mutation : MutationType) :
    mutation_from py (some (mutation.risk_feature py)) = mutation := by
  have hfind := @find_isclose MutationType (MutationType.risk_feature py) MutationType.exact_feature
    (fun m => ?_) (fun m => ?_) (fun m n hne => ?_) [.COEXIST, .REFINE, .SUPERSEDE, .RETRACT] mutation
    (by cases mutation <;> simp)
  · rw [mutation_from, hfind]
    rfl
  · cases m with
    | REFINE => exact (hpy.close (by norm_num) (by norm_num)).trans (by norm_num)
    | SUPERSEDE => exact (hpy.close (by norm_num) (by norm_num)).trans (by norm_num)
    | _ => simp [MutationType.exact_feature, MutationType.risk_feature]
  · cases m <;> norm_num [MutationType.exact_feature]
  · cases m <;> cases n <;>
      first | exact absurd rfl hne | norm_num [MutationType.exact_feature, abs_le, le_abs]

/-! ### What a missing rule changes -/

variable {conf : ConfidenceReport} {risk : RiskVerdict} {conflict : ConflictReport} {t : Thresholds}
  {signals : OverrideSignals}

/-- The codes of the loop are those of the rules that fire. -/
theorem codes_foldl_apply_rule {rs : List (String × Bool × Decision)} {acc : Decision × List String} :
    (rs.foldl apply_rule acc).2 = acc.2 ++ (rs.filter fun r => r.2.1).map Prod.fst := by
  induction rs generalizing acc with
  | nil => simp
  | cons r rs ih =>
      rw [List.foldl_cons, ih, List.filter_cons, apply_rule]
      split
      · simp
      · rfl

/-- The signals as a replay takes them. -/
def OverrideSignals.waived (signals : OverrideSignals) : OverrideSignals :=
  { signals with requires_corroboration := false }

theorem waived_of_not_required (h : signals.requires_corroboration = false) :
    signals.waived = signals := by
  rw [OverrideSignals.waived, ← h]

/-- No band is named like an override. -/
theorem from_matrix_codes : ∀ {c : Fin 4} {r : Fin 3} {corroborated : Bool},
    "OVR_CORROBORATION_REQUIRED" ∉ (from_matrix c r corroborated).2 := by
  decide +kernel

/-- Waiving the corroboration rule takes its code out of the rules that fire. -/
theorem rules_waived {esc corroborated : Bool} :
    ((rules risk conflict signals.waived esc corroborated).filter fun r => r.2.1).map Prod.fst =
      (((rules risk conflict signals esc corroborated).filter fun r => r.2.1).map Prod.fst).filter
        fun code => code != "OVR_CORROBORATION_REQUIRED" := by
  rw [List.filter_map, List.filter_filter]
  refine congrArg (List.map Prod.fst) ?_
  simp [rules, OverrideSignals.waived, List.filter_cons]

/-- CORRECT: waiving the corroboration rule of a first decision takes out its code, and makes the
    decision no stricter. -/
theorem decide_waived :
    (decide conf risk conflict t false signals.waived).reason_codes =
        (decide conf risk conflict t false signals).reason_codes.filter
          (fun code => code != "OVR_CORROBORATION_REQUIRED") ∧
      permissiveness (decide conf risk conflict t false signals.waived).decision ≤
        permissiveness (decide conf risk conflict t false signals).decision := by
  constructor
  · have hband : ∀ {c : Fin 4} {r : Fin 3} {corroborated : Bool},
        ((from_matrix c r corroborated).2.filter fun code => code != "OVR_CORROBORATION_REQUIRED") =
          (from_matrix c r corroborated).2 := by
      intro c r corroborated
      refine List.filter_eq_self.mpr fun code hcode => ?_
      simpa using fun h : code = "OVR_CORROBORATION_REQUIRED" => from_matrix_codes (h ▸ hcode)
    simp only [decide, Bool.false_and, Bool.false_eq_true, if_false, apply_overrides,
      codes_foldl_apply_rule, List.nil_append, List.filter_append, hband, rules_waived]
  · simp only [decide, Bool.false_and, Bool.false_eq_true, if_false, apply_overrides]
    refine foldl_apply_rule_mono ?_ le_rfl
    simp [rules, OverrideSignals.waived]

/-- A first decision on one source, where the predicate asks for two, says so. -/
theorem decide_required (hfresh : conf.corroboration.1 = 0) (h : signals.requires_corroboration = true) :
    "OVR_CORROBORATION_REQUIRED" ∈ (decide conf risk conflict t false signals).reason_codes := by
  have hnot : Decidable.decide (CORROBORATED ≤ conf.corroboration.1) = false :=
    decide_eq_false (not_corroborated hfresh)
  simp only [decide, Bool.false_and, Bool.false_eq_true, if_false, apply_overrides,
    codes_foldl_apply_rule, List.nil_append, hnot]
  refine List.mem_append_right _ (List.mem_map.mpr
    ⟨("OVR_CORROBORATION_REQUIRED", true, .HITL_REVIEW), ?_, rfl⟩)
  simp [rules, h]

/-! ### The replay -/

variable {deps : Deps} {pack : Pack} {weights : ConfidenceWeights py} {betas : RiskBetas}
  {proposal : Proposal} {verdict : GatedCandidate} {answers : Answers} {a : Assessment}
  {g : GovernedCandidate}

/-- The two features a replay inverts, as an assessed candidate's verdict keeps them. -/
theorem assess_features (h : assess py deps pack weights betas proposal verdict answers = .ok a) :
    feature a.risk.features "source_tier_risk" =
        some (source_tier_risk py verdict.candidate.provenance.source_tier) ∧
      feature a.risk.features "mutation_type" =
        some ((MutationType.from_conflict a.conflict.kind).risk_feature py) := by
  simp only [assess, risk_features, score_impact, bind_ok, Except.ok.injEq, unit_field_ok] at h
  obtain ⟨_, -, _, -, _, -, _, -, _, -, _, ⟨_, -, _, hmutation, _, -, _, -, _, -, _, -, _, htier, _, -, rfl⟩,
    _, ⟨_, -, rfl⟩, rfl⟩ := h
  exact ⟨congrArg some htier, congrArg some hmutation⟩

/-- CORRECT: a replay's signals are the recorded decision's, but for the corroboration rule. -/
theorem signals_for_eq (hpy : py.Nearest)
    (h : assess py deps pack weights betas proposal verdict answers = .ok a) {record : DecisionRecord}
    (hrisk : record.risk = a.risk) (hpolicy : record.policy_version = deps.policy_version) :
    signals_for py record = (override_signals verdict.candidate a.spec.toPredicateSpec deps.policy_version
      a.conflict.kind).waived := by
  obtain ⟨htier, hmutation⟩ := assess_features h
  rw [signals_for, hrisk, htier, hmutation, tier_from_risk hpy, mutation_from_feature hpy, hpolicy]
  rfl

/-- CORRECT: of every decision a submission records, and its audit payload gives back, the replay reaches
    the recorded decision and codes exactly where the predicate does not require corroboration. Where it
    does, the replay misses that rule's code and nothing else, and is at most as strict. -/
theorem replay_agrees_iff (py : Python) (hpy : py.Nearest) (deps : Deps) (pack : Pack)
    (weights : ConfidenceWeights py) (betas : RiskBetas) (proposal : Proposal) (layer1 : Call Extraction)
    (scoring : CandidateId → Call Answers) (result : PipelineResult) (failures : List CandidateFailure)
    (hrun : Orchestrator.run py deps pack weights betas proposal layer1 scoring =
      .answers (result, failures)) :
    ∀ g ∈ result.governed, ∃ spec, pack g.candidate.predicate = some spec ∧
      DecisionRecord.model_validate_json g.record.model_dump = .ok g.record ∧
      ((replay deps.thresholds g.record (signals_for py g.record)).decision = g.record.decision ∧
          (replay deps.thresholds g.record (signals_for py g.record)).reason_codes =
            g.record.reason_codes ↔
        spec.requires_corroboration = false) ∧
      (replay deps.thresholds g.record (signals_for py g.record)).reason_codes =
        g.record.reason_codes.filter (fun code =>
          !spec.requires_corroboration || code != "OVR_CORROBORATION_REQUIRED") ∧
      permissiveness (replay deps.thresholds g.record (signals_for py g.record)).decision ≤
        permissiveness g.record.decision := by
  intro g hg
  obtain ⟨v, reply, hd⟩ := governed_decided hrun hg
  obtain ⟨a, ha, hg⟩ := bind_ok.mp hd
  obtain rfl := Except.ok.inj hg
  obtain ⟨hspec, hfresh, -⟩ := assess_ok ha
  refine ⟨a.spec, hspec, DecisionRecord.reread _, ?_⟩
  dsimp only
  rw [signals_for_eq hpy ha rfl rfl, replay]
  cases hreq : a.spec.requires_corroboration with
  | false =>
      rw [waived_of_not_required hreq]
      exact ⟨iff_of_true ⟨rfl, rfl⟩ rfl, (List.filter_eq_self.mpr fun _ _ => rfl).symm, le_rfl⟩
  | true =>
      obtain ⟨hcodes, hstrict⟩ := @decide_waived a.confidence a.risk a.conflict deps.thresholds
        (override_signals v.candidate a.spec.toPredicateSpec deps.policy_version a.conflict.kind)
      refine ⟨iff_of_false (fun hsame => ?_) (by simp), hcodes, hstrict⟩
      have hmem := @decide_required a.confidence a.risk a.conflict deps.thresholds
        (override_signals v.candidate a.spec.toPredicateSpec deps.policy_version a.conflict.kind)
        hfresh hreq
      rw [← hsame.2] at hmem
      have hin := hcodes ▸ hmem
      simp at hin

namespace Clinical

/-- The language, by a pack that asks for a second source, or not. -/
def language_pack (requires_corroboration : Bool) : Pack := fun predicate =>
  (clinical_pack predicate).map fun spec => { spec with requires_corroboration }

/-- One submission of a stated language, decided under that pack. -/
def corroborated_run (requires_corroboration : Bool) :
    Call (PipelineResult × List CandidateFailure) :=
  Orchestrator.run python Clinical.deps (language_pack requires_corroboration) V1_WEIGHTS V1_BETAS
    ⟨"trace", "clinic", "patient:1", none⟩
    (.answers ⟨[language "trace" "1" "Welsh" 0], 0, 0, by decide⟩) fun _ => .answers web_answers

end Clinical

open Clinical in
/-- Without the requirement the patient's language replays as it was decided. -/
theorem language_replays : ∃ result failures, corroborated_run false = .answers (result, failures) ∧
    result.governed ≠ [] ∧ ∀ g ∈ result.governed,
      (replay Clinical.thresholds g.record (signals_for python g.record)).decision = g.record.decision := by
  obtain ⟨result, hrun, hgoverned⟩ := @run_answers python Clinical.deps (language_pack false) V1_WEIGHTS
    V1_BETAS ⟨"trace", "clinic", "patient:1", none⟩ ⟨[language "trace" "1" "Welsh" 0], 0, 0, by decide⟩
    fun _ => web_answers
  refine ⟨result, _, hrun, ?_, fun g hg => ?_⟩
  · rw [hgoverned]
    decide +kernel
  · obtain ⟨spec, hspec, -, hagree, -⟩ := replay_agrees_iff python python_nearest _ _ _ _ _ _ _ _ _ hrun g hg
    refine (hagree.mpr ?_).1
    obtain ⟨decl, -, rfl⟩ := Option.map_eq_some_iff.mp hspec
    rfl

open Clinical in
/-- With it the fact waits for a second source, and the replay under the same code and thresholds
    reports that it would be written. -/
theorem corroboration_replays_otherwise : ¬ ∀ (py : Python), py.Nearest → ∀ (deps : Deps) (pack : Pack)
    (weights : ConfidenceWeights py) (betas : RiskBetas) (proposal : Proposal) (layer1 : Call Extraction)
    (scoring : CandidateId → Call Answers) (result : PipelineResult) (failures : List CandidateFailure),
    Orchestrator.run py deps pack weights betas proposal layer1 scoring = .answers (result, failures) →
    ∀ g ∈ result.governed,
      (replay deps.thresholds g.record (signals_for py g.record)).decision = g.record.decision ∧
        (replay deps.thresholds g.record (signals_for py g.record)).reason_codes =
          g.record.reason_codes := by
  intro h
  obtain ⟨result, hrun, hgoverned⟩ := @run_answers python Clinical.deps (language_pack true) V1_WEIGHTS
    V1_BETAS ⟨"trace", "clinic", "patient:1", none⟩ ⟨[language "trace" "1" "Welsh" 0], 0, 0, by decide⟩
    fun _ => web_answers
  have hdecided : result.governed.map (fun g => (g.record.decision,
      (replay Clinical.thresholds g.record (signals_for python g.record)).decision)) =
        [(.HITL_REVIEW, .AUTO_WRITE)] := by
    rw [hgoverned]
    decide +kernel
  obtain ⟨g, hg, heq⟩ := List.mem_map.mp (hdecided ▸ List.mem_singleton_self _)
  obtain ⟨hrecorded, hreplayed⟩ := Prod.mk.inj heq
  have hsame := (h python python_nearest _ _ _ _ _ _ _ _ _ hrun g hg).1
  rw [hrecorded] at hsame
  exact absurd (hreplayed.symm.trans hsame) (by decide)

end GuardMem
