import GuardMem.Evaluation
import GuardMem.Memory.Applier
import GuardMem.Pipeline.NoiseFilter

/-! One proposal from its turns to the tables: `governance.govern` over the whole of `orchestrator.run`.

    Layer 1 runs on what the noise filter leaves and can refuse the proposal; every later exception is a
    candidate's own. CORRECT: so what the run raises is what Layer 1 raises (`typed_run`). -/

namespace GuardMem

/-- One submission to govern. -/
structure Submission extends Proposal where
  turns : List Turn
  source_tier : SourceTier
  k : ℕ
  tier : Tier

/-- What Layer 1 runs on: `str.lower`, rapidfuzz, the model, the rendered ontology and the two
    canaries. -/
structure Ingest where
  lower : String → String
  fz : Rapidfuzz
  llm : Llm
  ontology_yaml : String
  noise_canary : String
  canary : String

/-! ### Layer 1 -/

/-- Join the surviving turns into the document spans index into. -/
def render_content (turns : List Turn) : String := "\n".intercalate (turns.map Turn.text)

/-- `min` of a list of datetimes: a naive one and an aware one do not compare. -/
def min_stamp (stamp : Timestamp) : List Timestamp → Except Exc Timestamp
  | [] => .ok stamp
  | next :: rest =>
      if next.aware ≠ stamp.aware then
        .error (.TypeError "can't compare offset-naive and offset-aware datetimes")
      else min_stamp (if next.instant < stamp.instant then next else stamp) rest

/-- The caller-owned half of extraction. -/
def context_of (submission : Submission) (kept : List Turn) : Except Exc ExtractionContext :=
  match kept.filterMap Turn.captured_at with
  | [] => .error (.ValueError
      ("no surviving turn carries captured_at; Provenance requires it, and " ++
        "falling back to a clock would make this proposal unreplayable"))
  | stamp :: stamps => do
      let earliest ← min_stamp stamp stamps
      .ok { tenant_id := submission.tenant_id, «namespace» := submission.namespace
            trace_id := submission.trace_id, source_tier := submission.source_tier
            captured_at := earliest.instant }

variable (py : Python) (ingest : Ingest) (submission : Submission)

/-- The noise filter on the turns of a submission. -/
def denoise : Except Exc NoiseResult :=
  filter_noise ingest.lower ingest.fz ingest.llm submission.namespace ingest.noise_canary submission.turns

/-- Extract from what the filter left. -/
def extract_kept (denoised : NoiseResult) : Except Exc ExtractionResult := do
  let context ← context_of submission denoised.kept
  extract ingest.fz py (render_content denoised.kept) context ingest.llm ingest.ontology_yaml ingest.canary
    submission.k submission.tier denoised.dropped.length

/-- Layer 1, once for the proposal. -/
def layer1 : Except Exc (NoiseResult × ExtractionResult) := do
  let denoised ← denoise ingest submission
  let extracted ← extract_kept py ingest submission denoised
  .ok (denoised, extracted)

/-! ### The run and what is applied -/

variable (deps : Deps) (pack : Pack) (weights : ConfidenceWeights py) (betas : RiskBetas)
  (scoring : List (List ExtractedFact) → CandidateId → Call Answers)

/-- `orchestrator.run`, end to end. -/
def run_submission : Call (PipelineResult × List CandidateFailure) :=
  match layer1 py ingest submission with
  | .error exc => .raises exc
  | .ok (_, extracted) =>
      Orchestrator.run py deps pack weights betas submission.toProposal (.answers extracted.toExtraction)
        (scoring extracted.samples)

/-- Run the pipeline on one proposal and apply every decision it reached. -/
def Submission.govern (clock : CandidateId → ApplyClock) (db : Db) : Call (Governed × Db) :=
  (run_submission py ingest submission deps pack weights betas scoring).map fun out =>
    let (applied, apply_failures, db) := apply_all deps submission.tenant_id out.1.trace_id
      (out.1.governed.map fun g => (g, clock g.candidate.candidate_id)) db
    (⟨out.1, applied, out.2 ++ apply_failures⟩, db)

variable {py ingest submission deps pack weights betas scoring} in
theorem run_submission_error {exc : Exc} (h : layer1 py ingest submission = .error exc) :
    run_submission py ingest submission deps pack weights betas scoring = .raises exc := by
  rw [run_submission, h]

variable {py ingest submission deps pack weights betas scoring} in
theorem run_submission_ok {denoised : NoiseResult} {extracted : ExtractionResult}
    (h : layer1 py ingest submission = .ok (denoised, extracted)) :
    run_submission py ingest submission deps pack weights betas scoring =
      Orchestrator.run py deps pack weights betas submission.toProposal
        (.answers extracted.toExtraction) (scoring extracted.samples) := by
  rw [run_submission, h]

/-! ### What can be raised -/

/-- Whatever is raised is a member of the `GuardMemError` hierarchy. -/
def Typed {α : Type} (x : Except Exc α) : Prop := ∀ exc, x = .error exc → exc.code.isSome = true

theorem typed_ok {α : Type} (a : α) : Typed (.ok a : Except Exc α) := fun _ h => nomatch h

theorem typed_error {α : Type} {exc : Exc} :
    Typed (.error exc : Except Exc α) ↔ exc.code.isSome = true := by
  simp [Typed]

theorem typed_bind {α β : Type} {x : Except Exc α} {f : α → Except Exc β} :
    Typed (x >>= f) ↔ Typed x ∧ ∀ a, x = .ok a → Typed (f a) := by
  cases x with
  | error exc => simp [Typed, bind, Except.bind]
  | ok a => simp [Typed, bind, Except.bind]

/-! ### The clinical pack's own -/

namespace Clinical

/-- A model that answers every call, each extraction with these facts and each batch of turns with these
    verdicts. -/
def model (facts : List ExtractedFact) (verdicts : List NoiseVerdict) : Llm where
  provider request := .ok ⟨"[]" :: List.replicate (request.n - 1) "[]", by simp⟩
  render name _ _ := name
  read_facts _ := some facts
  read_verdicts _ := some verdicts

def scribe (fz : Rapidfuzz) (facts : List ExtractedFact) (verdicts : List NoiseVerdict := []) :
    Ingest where
  lower s := String.ofList (s.toList.map Char.toLower)
  fz := fz
  llm := model facts verdicts
  ontology_yaml := ""
  noise_canary := "canary-noise"
  canary := "canary-extract"

/-- The patient says something, `n` seconds into the conversation. -/
def said (n : ℕ) (text : String) : Turn := ⟨"turn-" ++ toString n, .USER, text, some ⟨n, true⟩⟩

/-- One conversation with the patient, submitted with its turns. -/
def conversation (turns : List Turn) (k : ℕ := 3) : Submission where
  trace_id := "trace"
  tenant_id := "clinic"
  «namespace» := "patient:1"
  turns := turns
  source_tier := .VERIFIED_USER
  k := k
  tier := .BALANCED

/-- What a model makes of a statement of the patient's language. -/
def speaks (language verbatim : String) (h : verbatim.length ≤ 2000 := by decide) : ExtractedFact where
  subject := "the patient"
  predicate := "preferred_language"
  object := .str language
  verbatim := verbatim
  verbatim_short := h

end Clinical

end GuardMem
