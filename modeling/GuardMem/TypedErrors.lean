import GuardMem.Citation
import GuardMem.Governance

/-! Which exceptions a well-formed proposal can end with.

    The stages of Layer 1 raise the domain's own errors for what a model says, but not where the noise
    filter leaves nothing, where two capture times do not compare, where a citation is refused, where
    more samples are asked for than an adapter draws, or where the provider itself raises something
    else. CORRECT: a run is free of untyped errors exactly where none of these happens
    (`run_typed_iff`). -/

namespace GuardMem

variable {py : Python} {ingest : Ingest} {submission : Submission} {fz : Rapidfuzz} {llm : Llm}
  {content prompt canary : String} {context : ExtractionContext} {k : ℕ} {tier : Tier}

/-! ### Stage by stage -/

/-- Where every error is another library's, only an answer will do. -/
theorem typed_iff_ok {α : Type} {x : Except Exc α}
    (h : ∀ exc, x = .error exc → exc.code.isSome = false) : Typed x ↔ ∃ a, x = .ok a := by
  cases x with
  | error exc => simp [typed_error, h exc rfl]
  | ok a => exact iff_of_true (typed_ok a) ⟨a, rfl⟩

theorem typed_require_samples {n : ℕ} : Typed (require_samples n) ↔ 1 ≤ n ∧ n ≤ MAX_SAMPLES := by
  unfold require_samples
  split_ifs with hlow hhigh
  · exact iff_of_false (by simp [typed_error, Exc.code]) (by omega)
  · exact iff_of_false (by simp [typed_error, Exc.code]) (by omega)
  · exact iff_of_true (typed_ok ()) (by omega)

theorem typed_complete {request : LLMRequest} : Typed (llm.complete request) ↔
    (1 ≤ request.n ∧ request.n ≤ MAX_SAMPLES) ∧ Typed (llm.provider request) := by
  unfold LLMClient.complete
  rw [typed_bind, typed_require_samples]
  refine and_congr_right fun hn => ?_
  have hok : require_samples request.n = .ok () := by
    unfold require_samples
    rw [if_neg (by omega), if_neg (by omega)]
  simp [hok]

theorem typed_reject_echo {samples : List String} : Typed (reject_echo canary samples) := by
  unfold reject_echo
  split_ifs
  · exact typed_error.mpr rfl
  · exact typed_ok ()

theorem typed_parse_from : ∀ (samples : List String) (index : ℕ), Typed (parse_from llm index samples) := by
  intro samples
  induction samples with
  | nil => exact fun index => typed_ok []
  | cons sample samples ih =>
      intro index
      unfold parse_from
      split
      · exact typed_error.mpr rfl
      · exact typed_bind.mpr ⟨ih (index + 1), fun _ _ => typed_ok _⟩

theorem typed_parse {responses : List LLMResponse} : Typed (parse llm responses k) := by
  unfold parse
  dsimp only
  split_ifs
  · exact typed_error.mpr rfl
  · exact typed_parse_from _ 0

/-- What refuses a citation is pydantic's error. -/
theorem link_fact_untyped {acc : List MemoryCandidate × ℕ} {fact : ExtractedFact} {exc : Exc}
    (h : link_fact fz py content context acc fact = .error exc) : exc.code.isSome = false := by
  unfold link_fact at h
  split at h
  · exact absurd h (by simp)
  · next found _ =>
      unfold Provenance.construct at h
      split_ifs at h
      · simp [bind, Except.bind] at h
      all_goals
        obtain rfl := Except.error.inj h
        rfl

theorem typed_to_candidates {facts : List ExtractedFact} :
    Typed (to_candidates fz py content context facts) ↔
      ∃ out, to_candidates fz py content context facts = .ok out := by
  have huntyped : ∀ (facts : List ExtractedFact) (acc : List MemoryCandidate × ℕ) (exc : Exc),
      facts.foldlM (link_fact fz py content context) acc = .error exc → exc.code.isSome = false := by
    intro facts
    induction facts with
    | nil => exact fun acc exc h => nomatch h
    | cons fact facts ih =>
        intro acc exc h
        rw [List.foldlM_cons] at h
        cases hlink : link_fact fz py content context acc fact with
        | error exc' =>
            rw [hlink] at h
            obtain rfl := Except.error.inj h
            exact link_fact_untyped hlink
        | ok next =>
            rw [hlink] at h
            exact ih next exc h
  exact typed_iff_ok (huntyped facts ([], 0))

/-- Two capture times compare where both name their offset or neither does. -/
def Comparable (turns : List Turn) : Prop :=
  ∀ t ∈ turns.filterMap Turn.captured_at, ∀ t' ∈ turns.filterMap Turn.captured_at, t.aware = t'.aware

theorem min_stamp_isOk : ∀ (stamps : List Timestamp) (stamp : Timestamp),
    (∃ t, min_stamp stamp stamps = .ok t) ↔ ∀ t ∈ stamps, t.aware = stamp.aware := by
  intro stamps
  induction stamps with
  | nil => exact fun stamp => iff_of_true ⟨stamp, rfl⟩ (by simp)
  | cons next rest ih =>
      intro stamp
      unfold min_stamp
      split_ifs with hmixed hless
      · exact iff_of_false (by simp) fun h => hmixed (h next List.mem_cons_self)
      · simp [ih, not_not.mp hmixed]
      · simp [ih, not_not.mp hmixed]

theorem min_stamp_untyped : ∀ (stamps : List Timestamp) (stamp : Timestamp) (exc : Exc),
    min_stamp stamp stamps = .error exc → exc.code.isSome = false := by
  intro stamps
  induction stamps with
  | nil => exact fun stamp exc h => nomatch h
  | cons next rest ih =>
      intro stamp exc h
      unfold min_stamp at h
      split_ifs at h
      · obtain rfl := Except.error.inj h
        rfl
      all_goals exact ih _ exc h

/-- A context is built exactly where a turn is left and their times compare. -/
theorem context_isOk {kept : List Turn} (h : ∀ turn ∈ kept, turn.captured_at.isSome) :
    (∃ context, context_of submission kept = .ok context) ↔ kept ≠ [] ∧ Comparable kept := by
  have hkept : kept = [] ↔ kept.filterMap Turn.captured_at = [] := by
    rw [List.filterMap_eq_nil_iff]
    constructor
    · rintro rfl
      simp
    · intro hnone
      by_contra hne
      obtain ⟨turn, hturn⟩ := List.exists_mem_of_ne_nil kept hne
      have := h turn hturn
      simp [hnone turn hturn] at this
  unfold context_of Comparable
  rw [Ne, hkept]
  cases hstamps : kept.filterMap Turn.captured_at with
  | nil => exact iff_of_false (by simp) (by simp)
  | cons stamp stamps =>
      have hmin := min_stamp_isOk stamps stamp
      simp only [bind_ok, Except.ok.injEq]
      constructor
      · rintro ⟨_, earliest, hearliest, -⟩
        have hsame := hmin.mp ⟨earliest, hearliest⟩
        have hall : ∀ t ∈ stamp :: stamps, t.aware = stamp.aware := by
          intro t ht
          rcases List.mem_cons.mp ht with rfl | ht
          · rfl
          · exact hsame t ht
        exact ⟨by simp, fun t ht t' ht' => (hall t ht).trans (hall t' ht').symm⟩
      · rintro ⟨-, hall⟩
        obtain ⟨earliest, hearliest⟩ := hmin.mpr fun t ht =>
          hall t (List.mem_cons_of_mem _ ht) stamp List.mem_cons_self
        exact ⟨_, earliest, hearliest, rfl⟩

theorem context_untyped {kept : List Turn} {exc : Exc} (h : context_of submission kept = .error exc) :
    exc.code.isSome = false := by
  unfold context_of at h
  split at h
  · obtain rfl := Except.error.inj h
    rfl
  · next stamp stamps _ =>
      cases hmin : min_stamp stamp stamps with
      | error exc' =>
          rw [hmin] at h
          obtain rfl := Except.error.inj h
          exact min_stamp_untyped stamps stamp _ hmin
      | ok earliest => simp [hmin, bind, Except.bind] at h

theorem kept_subset {turns : List Turn} {denoised : NoiseResult} (h : Fates turns denoised) :
    ∀ turn ∈ denoised.kept, turn ∈ turns := by
  obtain ⟨fates, rfl, hkept, -⟩ := h
  intro turn hturn
  rw [hkept] at hturn
  obtain ⟨⟨turn', why⟩, hfate, hsurvives⟩ := List.mem_filterMap.mp hturn
  cases why with
  | none =>
      obtain rfl := Option.some.inj hsurvives
      exact List.mem_map.mpr ⟨_, hfate, rfl⟩
  | some why => exact absurd hsurvives (by simp [TurnFate.survives])

/-! ### What Layer 1 asks -/

def noise_request (ingest : Ingest) (submission : Submission) (ambiguous : List Turn) : LLMRequest where
  prompt := ingest.llm.render "classify_noise" 1
    [("subject", submission.namespace), ("canary", ingest.noise_canary), ("turns", render_turns ambiguous)]
  schema := "NoiseClassification"
  tier := .FAST

def extraction_prompt (ingest : Ingest) (content : String) : String :=
  ingest.llm.render PROMPT_NAME PROMPT_VERSION
    [("content", content), ("ontology", ingest.ontology_yaml), ("canary", ingest.canary)]

def canonical_request (prompt : String) (tier : Tier) : LLMRequest where
  prompt := prompt
  schema := "ExtractionBatch"
  tier := tier

def spread_request (py : Python) (prompt : String) (k : ℕ) (tier : Tier) : LLMRequest where
  prompt := prompt
  schema := "ExtractionBatch"
  tier := tier
  temperature := py.round (7 / 10)
  n := k - 1

/-- The validated samples of a draw. -/
def drawn (py : Python) (llm : Llm) (canary prompt : String) (k : ℕ) (tier : Tier) :
    Except Exc (List (List ExtractedFact)) := do
  let responses ← draw py llm prompt k tier
  reject_echo canary (responses.flatMap LLMResponse.samples)
  parse llm responses k

theorem complete_ok {request : LLMRequest} (h1 : 1 ≤ request.n) (h2 : request.n ≤ MAX_SAMPLES) :
    llm.complete request = llm.provider request := by
  have hok : require_samples request.n = .ok () := by
    unfold require_samples
    rw [if_neg (by omega), if_neg (by omega)]
  rw [LLMClient.complete, hok]
  rfl

theorem typed_draw (hk : 1 ≤ k) : Typed (draw py llm prompt k tier) ↔
    Typed (llm.provider (canonical_request prompt tier)) ∧
      ∀ reply, llm.provider (canonical_request prompt tier) = .ok reply → k ≠ 1 →
        k ≤ MAX_SAMPLES + 1 ∧ Typed (llm.provider (spread_request py prompt k tier)) := by
  have hcanonical : llm.complete (canonical_request prompt tier) =
      llm.provider (canonical_request prompt tier) := complete_ok le_rfl (show 1 ≤ MAX_SAMPLES by decide)
  have hspread : Typed (llm.complete (spread_request py prompt k tier)) ↔
      (1 ≤ k - 1 ∧ k - 1 ≤ MAX_SAMPLES) ∧ Typed (llm.provider (spread_request py prompt k tier)) :=
    typed_complete
  have hdraw : draw py llm prompt k tier = (llm.complete (canonical_request prompt tier) >>= fun reply =>
      if k = 1 then .ok [reply]
      else llm.complete (spread_request py prompt k tier) >>= fun spread => .ok [reply, spread]) := rfl
  rw [hdraw, typed_bind, hcanonical]
  refine and_congr_right fun _ => forall₂_congr fun reply _ => ?_
  split_ifs with hone
  · simp [hone, typed_ok]
  · rw [typed_bind, hspread]
    constructor
    · rintro ⟨⟨hn, htyped⟩, -⟩ -
      exact ⟨by omega, htyped⟩
    · intro h
      obtain ⟨hn, htyped⟩ := h hone
      exact ⟨⟨by omega, htyped⟩, fun _ _ => typed_ok _⟩

theorem drawn_length {samples : List (List ExtractedFact)}
    (h : drawn py llm canary prompt k tier = .ok samples) : samples.length = k := by
  simp only [drawn, bind_ok] at h
  obtain ⟨responses, -, -, -, hparse⟩ := h
  exact parse_length hparse

theorem typed_drawn : Typed (drawn py llm canary prompt k tier) ↔ Typed (draw py llm prompt k tier) := by
  unfold drawn
  rw [typed_bind]
  exact and_iff_left fun _ _ => typed_bind.mpr ⟨typed_reject_echo, fun _ _ => typed_parse⟩

theorem typed_assemble (hfz : fz.InRange) (hpy : py.KeepsUnit) {canonical : List ExtractedFact}
    {rest : List (List ExtractedFact)} {dropped : ℕ} :
    Typed (assemble fz py content context (canonical :: rest) dropped) ↔
      ∀ fact ∈ canonical, Citable fz content fact := by
  have hlinked : (∃ out, to_candidates fz py content context canonical = .ok out) ↔
      ∀ fact ∈ canonical, Citable fz content fact := to_candidates_isOk hfz hpy
  rw [← hlinked, ← typed_to_candidates]
  unfold assemble
  dsimp only
  split
  · next exc hexc => rw [hexc, typed_error, typed_error]
  · next hout => exact iff_of_true (typed_ok _) (hout ▸ typed_ok _)

theorem typed_extract (hfz : fz.InRange) (hpy : py.KeepsUnit) (hk : 1 ≤ k) {ontology_yaml : String}
    {dropped : ℕ} {prompt : String} (hprompt : prompt = llm.render PROMPT_NAME PROMPT_VERSION
      [("content", content), ("ontology", ontology_yaml), ("canary", canary)]) :
    Typed (extract fz py content context llm ontology_yaml canary k tier dropped) ↔
      Typed (draw py llm prompt k tier) ∧ ∀ canonical rest,
        drawn py llm canary prompt k tier = .ok (canonical :: rest) →
          ∀ fact ∈ canonical, Citable fz content fact := by
  have hextract : extract fz py content context llm ontology_yaml canary k tier dropped =
      (drawn py llm canary prompt k tier >>= fun samples =>
        assemble fz py content context samples dropped) := by
    unfold extract drawn
    rw [if_neg (by omega), ← hprompt]
    simp only [bind_assoc]
  rw [hextract, typed_bind, typed_drawn]
  refine and_congr_right fun _ => ⟨fun h canonical rest hdrawn => ?_, fun h samples hdrawn => ?_⟩
  · exact (typed_assemble hfz hpy).mp (h _ hdrawn)
  · have hlength := drawn_length hdrawn
    cases samples with
    | nil => simp only [List.length_nil] at hlength; omega
    | cons canonical rest => exact (typed_assemble hfz hpy).mpr (h canonical rest hdrawn)

/-! ### The run -/

/-- What every well-formed proposal would have to meet for the run to be free of untyped errors. -/
structure Untroubled (py : Python) (ingest : Ingest) (submission : Submission) : Prop where
  noise : ∀ ambiguous, (submission.turns.foldl (sift ingest.lower ingest.fz) {}).ambiguous = ambiguous →
    ambiguous ≠ [] → Typed (ingest.llm.provider (noise_request ingest submission ambiguous))
  survivors : ∀ denoised, denoise ingest submission = .ok denoised →
    denoised.kept ≠ [] ∧ Comparable denoised.kept
  drawn : ∀ denoised prompt, denoise ingest submission = .ok denoised →
    prompt = extraction_prompt ingest (render_content denoised.kept) →
    Typed (ingest.llm.provider (canonical_request prompt submission.tier)) ∧
    ∀ reply, ingest.llm.provider (canonical_request prompt submission.tier) = .ok reply →
      submission.k ≠ 1 → submission.k ≤ MAX_SAMPLES + 1 ∧
        Typed (ingest.llm.provider (spread_request py prompt submission.k submission.tier))
  cited : ∀ denoised canonical rest, denoise ingest submission = .ok denoised →
    GuardMem.drawn py ingest.llm ingest.canary (extraction_prompt ingest (render_content denoised.kept))
      submission.k submission.tier = .ok (canonical :: rest) →
    ∀ fact ∈ canonical, Citable ingest.fz (render_content denoised.kept) fact

theorem typed_denoise : Typed (denoise ingest submission) ↔
    ∀ ambiguous, (submission.turns.foldl (sift ingest.lower ingest.fz) {}).ambiguous = ambiguous →
      ambiguous ≠ [] → Typed (ingest.llm.provider (noise_request ingest submission ambiguous)) := by
  have hclassify : ∀ ambiguous, Typed (classify_turns ingest.llm submission.namespace ingest.noise_canary
      ambiguous) ↔ Typed (ingest.llm.provider (noise_request ingest submission ambiguous)) := by
    intro ambiguous
    have hcomplete : ingest.llm.complete (noise_request ingest submission ambiguous) =
        ingest.llm.provider (noise_request ingest submission ambiguous) :=
      complete_ok le_rfl (show 1 ≤ MAX_SAMPLES by decide)
    unfold classify_turns
    dsimp only
    rw [typed_bind, ← hcomplete]
    exact and_iff_left fun _ _ => typed_bind.mpr ⟨typed_reject_echo, fun _ _ => typed_ok _⟩
  unfold denoise filter_noise
  dsimp only
  split_ifs with hempty
  · refine iff_of_true (typed_ok _) ?_
    rintro ambiguous rfl hne
    exact absurd (List.isEmpty_iff.mp hempty) hne
  · rw [typed_bind, hclassify]
    constructor
    · rintro ⟨htyped, -⟩ ambiguous rfl -
      exact htyped
    · intro h
      exact ⟨h _ rfl fun hnil => hempty (List.isEmpty_iff.mpr hnil), fun _ _ => typed_ok _⟩

theorem typed_extract_kept (hfz : ingest.fz.InRange) (hpy : py.KeepsUnit) (hk : 1 ≤ submission.k)
    {denoised : NoiseResult} (hkept : ∀ turn ∈ denoised.kept, turn.captured_at.isSome) {prompt : String}
    (hprompt : prompt = extraction_prompt ingest (render_content denoised.kept)) :
    Typed (extract_kept py ingest submission denoised) ↔
      (denoised.kept ≠ [] ∧ Comparable denoised.kept) ∧
      Typed (draw py ingest.llm prompt submission.k submission.tier) ∧ ∀ canonical rest,
        drawn py ingest.llm ingest.canary prompt submission.k submission.tier = .ok (canonical :: rest) →
          ∀ fact ∈ canonical, Citable ingest.fz (render_content denoised.kept) fact := by
  have hcontext : (∃ context, context_of submission denoised.kept = .ok context) ↔
      denoised.kept ≠ [] ∧ Comparable denoised.kept := context_isOk hkept
  unfold extract_kept
  rw [typed_bind, typed_iff_ok fun _ => context_untyped, ← hcontext]
  simp only [typed_extract hfz hpy hk hprompt]
  constructor
  · rintro ⟨⟨context, hcontext⟩, h⟩
    exact ⟨⟨context, hcontext⟩, h context hcontext⟩
  · rintro ⟨hcontext, h⟩
    exact ⟨hcontext, fun _ _ => h⟩

theorem typed_layer1 (hfz : ingest.fz.InRange) (hpy : py.KeepsUnit)
    (hturns : ∀ turn ∈ submission.turns, turn.captured_at.isSome) (hk : 1 ≤ submission.k) :
    Typed (layer1 py ingest submission) ↔ Untroubled py ingest submission := by
  have hextracted : ∀ denoised prompt, denoise ingest submission = .ok denoised →
      prompt = extraction_prompt ingest (render_content denoised.kept) → _ :=
    fun denoised prompt hdenoised hprompt => @typed_extract_kept py ingest submission hfz hpy hk denoised
      (fun turn hturn => hturns turn (kept_subset (filter_noise_fates hdenoised) turn hturn)) prompt hprompt
  unfold layer1
  rw [typed_bind, typed_denoise]
  constructor
  · rintro ⟨hnoise, hrest⟩
    have hstages := fun denoised prompt hdenoised hprompt =>
      (hextracted denoised prompt hdenoised hprompt).mp (typed_bind.mp (hrest denoised hdenoised)).1
    exact
      { noise := hnoise
        survivors := fun denoised hdenoised => (hstages denoised _ hdenoised rfl).1
        drawn := fun denoised prompt hdenoised hprompt =>
          (typed_draw hk).mp (hstages denoised prompt hdenoised hprompt).2.1
        cited := fun denoised canonical rest hdenoised =>
          (hstages denoised _ hdenoised rfl).2.2 canonical rest }
  · intro h
    refine ⟨h.noise, fun denoised hdenoised => typed_bind.mpr ⟨?_, fun _ _ => typed_ok _⟩⟩
    exact (hextracted denoised _ hdenoised rfl).mpr ⟨h.survivors denoised hdenoised,
      (typed_draw hk).mpr (h.drawn denoised _ hdenoised rfl),
      fun canonical rest => h.cited denoised canonical rest hdenoised⟩

/-- CORRECT: a well-formed proposal ends with a result or one of the domain's errors exactly where the
    noise filter leaves a turn, the capture times compare, the adapter draws that many samples and its
    provider raises nothing else, and each canonical citation is in bounds. -/
theorem run_typed_iff (py : Python) (hpy : py.KeepsUnit) (ingest : Ingest) (hfz : ingest.fz.InRange)
    (submission : Submission) (hturns : ∀ turn ∈ submission.turns, turn.captured_at.isSome)
    (hk : 1 ≤ submission.k) (deps : Deps) (pack : Pack) (weights : ConfidenceWeights py)
    (betas : RiskBetas) (scoring : List (List ExtractedFact) → CandidateId → Call Answers) :
    (∀ exc, run_submission py ingest submission deps pack weights betas scoring = .raises exc →
        exc.code.isSome = true) ↔ Untroubled py ingest submission := by
  rw [← typed_layer1 hfz hpy hturns hk]
  unfold run_submission Typed
  cases layer1 py ingest submission with
  | error exc => simp
  | ok out =>
      refine iff_of_true (fun exc h => ?_) (fun exc h => nomatch h)
      simp only [Orchestrator.run] at h
      split at h <;> cases h

open Clinical in
/-- The patient states a language and is quoted. -/
theorem statement_typed : denoise (scribe .reference [speaks "es" "speak Spanish with me"])
      (conversation [said 1 "I would prefer it when the nurses speak Spanish with me"]) =
        .ok ⟨[said 1 "I would prefer it when the nurses speak Spanish with me"], []⟩ ∧
    ∀ exc, run_submission python (scribe .reference [speaks "es" "speak Spanish with me"])
        (conversation [said 1 "I would prefer it when the nurses speak Spanish with me"])
        deps clinical_pack V1_WEIGHTS V1_BETAS (fun _ _ => .cancelled) = .raises exc →
      exc.code.isSome = true := by
  have hdenoise : denoise (scribe .reference [speaks "es" "speak Spanish with me"])
      (conversation [said 1 "I would prefer it when the nurses speak Spanish with me"]) =
        .ok ⟨[said 1 "I would prefer it when the nurses speak Spanish with me"], []⟩ := by decide +kernel
  refine ⟨hdenoise, (run_typed_iff python python_keepsUnit (scribe .reference [speaks "es" "speak Spanish with me"])
    Rapidfuzz.reference_inRange (conversation
      [said 1 "I would prefer it when the nurses speak Spanish with me"]) (by decide) (by decide)
    deps clinical_pack V1_WEIGHTS V1_BETAS (fun _ _ => .cancelled)).mpr
    { noise := fun _ _ _ => typed_ok _
      survivors := fun denoised h => ?_
      drawn := fun _ _ _ _ => ⟨typed_ok _, fun _ _ _ => ⟨by decide, typed_ok _⟩⟩
      cited := fun denoised canonical rest h hdrawn => ?_ }⟩
  · obtain rfl := Except.ok.inj (hdenoise.symm.trans h)
    exact ⟨by decide, fun t ht t' ht' => by
      obtain rfl := List.mem_singleton.mp ht
      obtain rfl := List.mem_singleton.mp ht'
      rfl⟩
  · obtain rfl := Except.ok.inj (hdenoise.symm.trans h)
    intro fact hfact x hx
    obtain rfl : canonical = [speaks "es" "speak Spanish with me"] := by
      simp only [GuardMem.drawn, bind_ok] at hdrawn
      obtain ⟨responses, hdraw, -, -, hparse⟩ := hdrawn
      obtain rfl := Except.ok.inj hdraw
      exact (List.cons.inj (Except.ok.inj hparse)).1.symm
    obtain rfl := List.mem_singleton.mp hfact
    exact absurd hx.absent (by decide +kernel)

open Clinical in
/-- A conversation of thanks alone: nothing is left to extract from and the run dies of a `ValueError`. -/
theorem thanks_untyped : python.KeepsUnit ∧ Rapidfuzz.reference.InRange ∧
    (∀ turn ∈ (conversation [said 1 "Thanks!"]).turns, turn.captured_at.isSome) ∧
    ∃ exc, run_submission python (scribe .reference []) (conversation [said 1 "Thanks!"]) deps clinical_pack
        V1_WEIGHTS V1_BETAS (fun _ _ => .cancelled) = .raises exc ∧ exc.code.isSome = false := by
  have hlayer : layer1 python (scribe .reference []) (conversation [said 1 "Thanks!"]) =
      .error (.ValueError
        ("no surviving turn carries captured_at; Provenance requires it, and " ++
          "falling back to a clock would make this proposal unreplayable")) := by
    have hdenoise : denoise (scribe .reference []) (conversation [said 1 "Thanks!"]) =
        .ok ⟨[], [⟨said 1 "Thanks!", .EPHEMERAL, .RULE⟩]⟩ := by decide +kernel
    rw [layer1, hdenoise]
    rfl
  have hrun := @run_submission_error python (scribe .reference []) (conversation [said 1 "Thanks!"]) deps
    clinical_pack V1_WEIGHTS V1_BETAS (fun _ _ => .cancelled) _ hlayer
  exact ⟨python_keepsUnit, Rapidfuzz.reference_inRange, by decide, _, hrun, rfl⟩

end GuardMem
