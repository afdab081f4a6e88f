import GuardMem.Clinical
import GuardMem.Pipeline.Region

/-! Whether a predicate's `min_source_tier` caps what its sources may auto-write.

    The gate leaves the tier to the decision matrix; the matrix and its overrides read it for retrieved
    web content under a high impact only. So a source below the declared tier is kept from writing
    exactly where something else keeps it (`source_cap_iff`), and under a low impact nothing does
    (`web_writes_language`). -/

namespace GuardMem

variable {py : Python} {deps : Deps} {pack : Pack} {weights : ConfidenceWeights py} {betas : RiskBetas}
  {proposal : Proposal} {verdict : GatedCandidate}
  {answers : Answers} {a : Assessment} {g : GovernedCandidate}

/-! ### When the matrix writes -/

/-- Resting on one source, a candidate is written for its confidence and its low risk only. -/
theorem decide_auto_fresh {conf : ConfidenceReport} {risk : RiskVerdict} {conflict : ConflictReport}
    {t : Thresholds} {signals : OverrideSignals} (hfresh : conf.corroboration.1 = 0) :
    (decide conf risk conflict t false signals).decision = .AUTO_WRITE ↔
      (t.tau_mid.1 ≤ conf.confidence.1 ∧ risk.risk.1 < t.rho_lo.1) ∧
        Unoverridden conf risk conflict signals := by
  rw [decide_auto, InAutoRegion]
  simp only [not_corroborated hfresh, and_false, or_false]

/-- What stops a candidate, whatever its tier promises: a rule that fires, a confidence under the middle
    cut or a risk at or above the lower one. -/
def Assessment.Stopped (a : Assessment) (candidate : MemoryCandidate) (t : Thresholds) : Prop :=
  a.spec.requires_corroboration = true ∨
    (candidate.provenance.source_tier = .RETRIEVED_WEB ∧
      (a.spec.impact = .HIGH ∨ a.spec.impact = .CRITICAL)) ∨
    a.conflict.resolution_hint = .escalate ∨ a.confidence.confidence.1 < t.tau_mid.1 ∨
    t.rho_lo.1 ≤ a.risk.risk.1

/-- CORRECT: an assessed candidate is written unless something other than its tier's floor stops it. -/
theorem decide_one_auto (h : assess py deps pack weights betas proposal verdict answers = .ok a) :
    ∃ g, decide_one py deps pack weights betas proposal verdict answers = .ok g ∧
      g.candidate = verdict.candidate ∧
      (g.record.decision = .AUTO_WRITE ↔ ¬ a.Stopped verdict.candidate deps.thresholds) := by
  obtain ⟨-, hfresh, himpact, hobligations⟩ := assess_ok h
  refine ⟨_, by rw [decide_one, h]; rfl, rfl, ?_⟩
  have hretract : MutationType.from_conflict a.conflict.kind ≠ .RETRACT := by
    cases a.conflict.kind <;> simp [MutationType.from_conflict]
  rw [decide_auto_fresh hfresh, Assessment.Stopped, unoverridden_iff]
  simp only [override_signals, himpact, hobligations, not_corroborated hfresh, not_or, not_lt, not_le]
  simp [hretract]
  tauto

/-- CORRECT: over a whole submission, no source below its predicate's declared tier writes exactly where
    each such candidate that is scored is stopped by something else. -/
theorem source_cap_iff (py : Python) (deps : Deps) (pack : Pack) (weights : ConfidenceWeights py)
    (betas : RiskBetas) (proposal : Proposal) (extracted : List MemoryCandidate)
    (answers : GatedCandidate → Answers) :
    (∀ g ∈ (run_extracted py deps pack weights betas proposal extracted answers).1,
      ∀ spec, pack g.candidate.predicate = some spec →
        g.candidate.provenance.source_tier.at_least spec.min_source_tier = false →
        g.record.decision ≠ .AUTO_WRITE) ↔
    ∀ v ∈ (gate py deps.casefold extracted pack).admitted,
      ∀ a, assess py deps pack weights betas proposal v (answers v) = .ok a →
        v.candidate.provenance.source_tier.at_least a.spec.min_source_tier = false →
        a.Stopped v.candidate deps.thresholds := by
  constructor
  · intro h v hv a ha hweak
    obtain ⟨g, hg, hcand, hauto⟩ := decide_one_auto ha
    by_contra hfree
    refine h g (mem_run_extracted.mpr ⟨v, hv, hg⟩) a.spec ?_ ?_ (hauto.mpr hfree)
    · rw [hcand]
      exact (assess_ok ha).1
    · rw [hcand]
      exact hweak
  · intro h g hg spec hspec hweak hwrite
    obtain ⟨v, hv, hd⟩ := mem_run_extracted.mp hg
    obtain ⟨a, ha, -⟩ := bind_ok.mp hd
    obtain ⟨g', hg', hcand, hauto⟩ := decide_one_auto ha
    obtain rfl : g' = g := Except.ok.inj (hg'.symm.trans hd)
    rw [hcand] at hspec hweak
    obtain rfl : a.spec = spec := Option.some.inj ((assess_ok ha).1.symm.trans hspec)
    exact hauto.mp hwrite (h v hv a ha hweak)

/-! ### A web page that writes -/

namespace Clinical

/-- What a retrieved page says of the patient's language. -/
def web_language : MemoryCandidate :=
  let said := language "trace" "1" "Welsh" 0
  { said with provenance := { said.provenance with source_tier := .RETRIEVED_WEB } }

/-- The draws agree, the span entails the claim and nothing is known of the patient yet. -/
def web_answers : Answers := ⟨0, 1, [], 0, ⟨[], [], [], []⟩⟩

end Clinical

open Clinical in
/-- The page is below `preferred_language`'s tier, and its claim is written. -/
theorem web_writes_language : ¬ ∀ (py : Python) (deps : Deps) (pack : Pack) (weights : ConfidenceWeights py)
    (betas : RiskBetas) (proposal : Proposal) (extracted : List MemoryCandidate)
    (answers : GatedCandidate → Answers),
    ∀ g ∈ (run_extracted py deps pack weights betas proposal extracted answers).1,
      ∀ spec, pack g.candidate.predicate = some spec →
        g.candidate.provenance.source_tier.at_least spec.min_source_tier = false →
        g.record.decision ≠ .AUTO_WRITE := by
  intro h
  have hwritten : (run_extracted python Clinical.deps clinical_pack V1_WEIGHTS V1_BETAS
      ⟨"trace", "clinic", "patient:1", none⟩ [web_language] fun _ => web_answers).1.map
        (fun g => (g.candidate, g.record.decision)) = [(web_language, .AUTO_WRITE)] := by
    decide +kernel
  obtain ⟨g, hg, heq⟩ := List.mem_map.mp (hwritten ▸ List.mem_singleton_self _)
  obtain ⟨hcand, hwrite⟩ := Prod.mk.inj heq
  exact h _ _ _ _ _ _ _ _ g hg _ (by rw [hcand]; rfl) (by rw [hcand]; rfl) hwrite

end GuardMem
