import GuardMem.Citation
import GuardMem.Governance
import GuardMem.Pipeline.Entropy
import GuardMem.SourceCap

/-! `mode=strict` beside the queue, on one request.

    Both modes extract the same candidates from the same canonical sample; strict draws nothing more, the
    queue draws on. One draw has no spread, so strict scores its uncertainty term in full. CORRECT: strict
    writes nothing the queue would not exactly where what it writes could lose that term to any spread of
    the draws and still reach the middle cut (`strict_narrower_iff`). -/

namespace GuardMem

/-! ### The two modes -/

/-- Govern inline, at one sample on the fast tier. -/
def strict (request : Submission) : Submission := { request with k := 1, tier := .FAST }

/-- Hand the proposal to the worker. -/
def enqueue (default_k : ℕ) (request : Submission) : Submission :=
  { request with k := default_k, tier := .BALANCED }

/-- What scoring meets around a request: the judge's and the entailment model's answers for each
    candidate, the subject's degree and the tables. -/
structure Surroundings where
  judgements : CandidateId → List Judgement
  scores : CandidateId → EntailmentPair → UnitFloat
  degree : CandidateId → ℕ
  db : Db

variable (py : Python) (lib : Stdlib) (deps : Deps) (pack : Pack) (weights : ConfidenceWeights py)
  (betas : RiskBetas) (proposal : Proposal)

/-- The question that every mode asks of a candidate. -/
def grounding_pair (v : GatedCandidate) : EntailmentPair :=
  (v.candidate.provenance.verbatim, claim_text lib v.candidate)

/-- How the calls that score a candidate end, given the draws. -/
def Surroundings.answers (around : Surroundings) (samples : List (List ExtractedFact))
    (v : GatedCandidate) : Call Answers :=
  match confidence_inputs py lib (fun wanted => .ok (wanted.map (around.scores v.id))) samples
      v.candidate with
  | .error exc => .raises exc
  | .ok (entropy, span_entailment) =>
      .answers ⟨entropy.1, span_entailment, around.judgements v.id, around.degree v.id, around.db⟩

/-- Score the admitted candidates by these draws. -/
def scoring_in (around : Surroundings) (admitted : List GatedCandidate)
    (samples : List (List ExtractedFact)) (id : CandidateId) : Call Answers :=
  match admitted.find? fun v => v.id == id with
  | some v => around.answers py lib samples v
  | none => .cancelled

/-- One run on the draws. -/
def run_on (extracted : Extraction) (around : Surroundings) (samples : List (List ExtractedFact)) :
    Call (PipelineResult × List CandidateFailure) :=
  Orchestrator.run py deps pack weights betas proposal (.answers extracted)
    (scoring_in py lib around (gate py deps.casefold extracted.candidates pack).admitted samples)

/-- The candidates that a run decides to write. -/
def auto_written : Call (PipelineResult × List CandidateFailure) → List MemoryCandidate
  | .answers (result, _) =>
      (result.governed.filter fun g => g.record.decision = .AUTO_WRITE).map GovernedCandidate.candidate
  | _ => []

/-- The composite at another entropy, all else as reported. -/
def composite (report : ConfidenceReport) (entropy : UnitFloat) : ℚ :=
  min 1 (max 0 ([py.mul weights.grounding.1 report.grounding.1,
    py.mul weights.schema_fit.1 report.schema_fit.1, py.mul weights.corroboration.1 report.corroboration.1,
    py.mul weights.consistency.1 report.consistency.1].foldl py.add
      (py.mul weights.uncertainty.1 (py.sub 1 entropy.1))))

/-- The answers a candidate is scored on when its draws fall into these meanings. -/
def answers_at (around : Surroundings) (v : GatedCandidate) (labels : List ℕ) : Answers :=
  ⟨(normalised_entropy py lib labels).1,
    (entailment (around.scores v.id) v.candidate.provenance.verbatim (claim_text lib v.candidate)).1,
    around.judgements v.id, around.degree v.id, around.db⟩

variable {py lib deps pack weights betas proposal} {extracted : Extraction} {around : Surroundings}
  {samples : List (List ExtractedFact)} {v : GatedCandidate} {a : Assessment}

/-! ### What a run writes -/

/-- Another entropy changes the confidence and nothing else. -/
theorem assess_entropy {answers : Answers} (entropy : UnitFloat)
    (h : assess py deps pack weights betas proposal v answers = .ok a) :
    ∃ confidence, assess py deps pack weights betas proposal v { answers with entropy := entropy.1 } =
        .ok { a with confidence } ∧ confidence.confidence.1 = composite py weights a.confidence entropy := by
  simp only [assess, bind_ok, Except.ok.injEq] at h ⊢
  obtain ⟨spec, hspec, sid, hsid, nearest, hnearest, conflict, hconflict, conf, hconf, features, hfeatures,
    risk, hrisk, rfl⟩ := h
  simp only [score_confidence, corroboration_one, bind_ok, Except.ok.injEq, exists_eq_left',
    unit_field_ok] at hconf
  obtain ⟨_, -, g, hg, s, hs, c, hc, k, hk, _, -, rfl⟩ := hconf
  refine ⟨⟨entropy, g, s, c, k, ⟨composite py weights ⟨entropy, g, s, c, k, entropy, weights.version⟩ entropy,
    le_min zero_le_one (le_max_left _ _), min_le_left _ _⟩, weights.version⟩, ?_, rfl⟩
  refine ⟨spec, hspec, sid, hsid, nearest, hnearest, conflict, hconflict, _, ?_, features, hfeatures, risk,
    hrisk, rfl⟩
  simp only [score_confidence, corroboration_one, bind_ok, Except.ok.injEq, exists_eq_left', unit_field_ok]
  refine ⟨entropy, rfl, g, hg, s, hs, c, hc, k, hk, _, ?_, rfl⟩
  simp only [composite, hg, hs, hc, hk]

theorem answers_eq (hsamples : samples ≠ []) : around.answers py lib samples v =
    .answers (answers_at py lib around v
      (meanings py (around.scores v.id) (draws_for lib samples v.candidate))) := by
  rw [Surroundings.answers, confidence_inputs_ok hsamples]
  rfl

theorem scoring_in_eq (hv : v ∈ (gate py deps.casefold extracted.candidates pack).admitted) :
    scoring_in py lib around (gate py deps.casefold extracted.candidates pack).admitted samples v.id =
      around.answers py lib samples v := by
  have hnodup := @admitted_nodup py deps pack extracted
  have hfind : (gate py deps.casefold extracted.candidates pack).admitted.find? (fun u => u.id == v.id) =
      some v := by
    cases hfound : (gate py deps.casefold extracted.candidates pack).admitted.find? fun u => u.id == v.id with
    | none => simpa using List.find?_eq_none.mp hfound v hv
    | some u =>
        have hid : u.id = v.id := by simpa using List.find?_some hfound
        rw [List.inj_on_of_nodup_map hnodup (List.mem_of_find?_eq_some hfound) hv hid]
  rw [scoring_in, hfind]

/-- CORRECT: a run writes the candidates that nothing stops at the spread of their draws. -/
theorem mem_auto_written (hsamples : samples ≠ []) {c : MemoryCandidate} :
    c ∈ auto_written (run_on py lib deps pack weights betas proposal extracted around samples) ↔
      ∃ v ∈ (gate py deps.casefold extracted.candidates pack).admitted, v.candidate = c ∧
        ∃ a, assess py deps pack weights betas proposal v (answers_at py lib around v
          (meanings py (around.scores v.id) (draws_for lib samples v.candidate))) = .ok a ∧
        ¬ a.Stopped c deps.thresholds := by
  have hscore : ∀ v ∈ (gate py deps.casefold extracted.candidates pack).admitted,
      score py deps pack weights betas proposal
        (scoring_in py lib around (gate py deps.casefold extracted.candidates pack).admitted samples) v =
      some (decide_one py deps pack weights betas proposal v (answers_at py lib around v
        (meanings py (around.scores v.id) (draws_for lib samples v.candidate)))) := by
    intro v hv
    rw [score, scoring_in_eq hv, answers_eq hsamples]
    rfl
  obtain ⟨result, hrun, hgoverned⟩ := @run_scored py deps pack weights betas proposal
    (scoring_in py lib around (gate py deps.casefold extracted.candidates pack).admitted samples) extracted
    fun v hv hcancelled => by
      have := hscore v hv
      rw [score_eq_none.mpr hcancelled] at this
      cases this
  rw [run_on, hrun]
  simp only [auto_written, hgoverned, List.mem_map, List.mem_filter, List.mem_filterMap, decide_eq_true_eq]
  constructor
  · rintro ⟨g, ⟨⟨v, hv, hg⟩, hwrite⟩, rfl⟩
    rw [hscore v hv] at hg
    cases hdecide : decide_one py deps pack weights betas proposal v (answers_at py lib around v
        (meanings py (around.scores v.id) (draws_for lib samples v.candidate))) with
    | error exc => simp [hdecide] at hg
    | ok g' =>
        rw [hdecide] at hg
        obtain rfl : g' = g := Option.some.inj hg
        obtain ⟨a, ha, -⟩ := bind_ok.mp hdecide
        obtain ⟨g'', hg'', hcandidate, hauto⟩ := decide_one_auto ha
        obtain rfl : g'' = g' := Except.ok.inj (hg''.symm.trans hdecide)
        exact ⟨v, hv, hcandidate.symm, a, ha, by rw [hcandidate]; exact hauto.mp hwrite⟩
  · rintro ⟨v, hv, rfl, a, ha, hfree⟩
    obtain ⟨g, hg, hcandidate, hauto⟩ := decide_one_auto ha
    exact ⟨g, ⟨⟨v, hv, by rw [hscore v hv, hg]; rfl⟩, hauto.mpr hfree⟩, hcandidate⟩

/-! ### Draws that fall into given meanings -/

/-- A candidate's subject and predicate are those of a fact of the sample it was extracted from. -/
theorem first_object_isSome {fz : Rapidfuzz} {content : String} {context : ExtractionContext}
    {canonical : List ExtractedFact} {unsourced : ℕ}
    (h : to_candidates fz py content context canonical = .ok (extracted.candidates, unsourced))
    (hv : v ∈ (gate py deps.casefold extracted.candidates pack).admitted) :
    ∃ text, first_object lib v.candidate canonical = some text := by
  obtain ⟨c, hc, value, hvalue, -⟩ := admitted_spec hv
  have hsaid : c.said ∈ (canonical.filter (sourced fz py content)).map ExtractedFact.said :=
    (to_candidates_accounts h).said ▸ List.mem_map_of_mem hc
  obtain ⟨fact, hfact, heq⟩ := List.mem_map.mp hsaid
  simp only [ExtractedFact.said, MemoryCandidate.said, Prod.mk.injEq] at heq
  obtain ⟨hsubject, hpredicate, -⟩ := heq
  have hfound : (canonical.find? fun fact =>
      fact.subject = v.candidate.subject ∧ fact.predicate = v.candidate.predicate).isSome := by
    rw [List.find?_isSome]
    exact ⟨fact, List.mem_of_mem_filter hfact, by simp [hvalue, hsubject, hpredicate]⟩
  obtain ⟨found, hfound⟩ := Option.isSome_iff_exists.mp hfound
  exact ⟨_, by rw [first_object, hfound]; rfl⟩

/-- A text of its own length. -/
def stroke (n : ℕ) : String := String.ofList (List.replicate n '|')

@[simp] theorem length_stroke (n : ℕ) : (stroke n).length = n := by simp [stroke]

/-- A draw that answers a candidate's question with this text. -/
def answering (c : MemoryCandidate) (text : String) : List ExtractedFact :=
  [⟨c.subject, c.predicate, .str text, "", verbatim_empty⟩]

theorem first_object_answering (c : MemoryCandidate) (text : String) :
    first_object lib c (answering c text) = some text := by
  simp [first_object, answering, render]

/-- The number of the draw that a text answers, the texts being the canonical one and longer and longer
    strokes. -/
def number_of (text : String) (base : ℕ) (s : String) : ℕ := if s = text then 0 else s.length - base

/-- A model for which the texts of these draws fall into given meanings, and which grounds as another. -/
def meaning_as (labels : List ℕ) (text : String) (base : ℕ) (grounding : EntailmentPair) (score : UnitFloat) :
    EntailmentPair → UnitFloat := fun pair =>
  if pair = grounding then score
  else if labels.getD (number_of text base pair.1) 0 = labels.getD (number_of text base pair.2) 0
    then .one
  else .zero

theorem same_meaning_cut (hpy : py.Nearest) : 0 < SAME_MEANING py ∧ SAME_MEANING py ≤ 1 := by
  have hclose := abs_le.mp (hpy (8 / 10) (by norm_num) (by norm_num))
  have htiny : (1 : ℚ) / 2 ^ 53 ≤ 1 / 10 := by norm_num
  constructor <;> rw [SAME_MEANING] <;> linarith [hclose.1, hclose.2]

/-- The strokes' draws, after the canonical one. -/
def strokes (c : MemoryCandidate) (base k : ℕ) : List (List ExtractedFact) :=
  (List.range' 1 (k - 1)).map fun i => answering c (stroke (base + i))

/-- CORRECT: every partition is one that some further draws and some model come to. -/
theorem meanings_realised (hpy : py.Nearest) {canonical : List ExtractedFact} {c : MemoryCandidate}
    {text verbatim claim : String} {k base : ℕ} {labels : List ℕ} {score : UnitFloat} (hk : 1 ≤ k)
    (htext : first_object lib c canonical = some text)
    (hbase : text.length + verbatim.length + claim.length ≤ base) (hlabels : Partition k labels) :
    meanings py (meaning_as labels text base (verbatim, claim) score)
      (draws_for lib (canonical :: strokes c base k) c) = labels := by
  set word : ℕ → String := fun i => if i = 0 then text else stroke (base + i) with hword
  have hdraws : draws_for lib (canonical :: strokes c base k) c =
      (List.range k).map fun i => some (word i) := by
    obtain ⟨n, rfl⟩ : ∃ n, k = n + 1 := ⟨k - 1, by omega⟩
    rw [List.range_succ_eq_map, List.map_cons, List.map_map, draws_for, List.map_cons, htext, strokes,
      List.map_map, Nat.add_sub_cancel, List.range'_eq_map_range, List.map_map]
    refine congrArg₂ _ rfl (List.map_congr_left fun i _ => ?_)
    simp [hword, first_object_answering, Nat.add_comm 1 i]
  have hlong : ∀ {i}, 0 < i → (word i).length = base + i := fun hi => by simp [hword, hi.ne']
  have hnumber : ∀ i, number_of text base (word i) = i := by
    intro i
    rcases Nat.eq_zero_or_pos i with rfl | hi
    · simp [number_of, hword]
    · have hne : word i ≠ text := fun heq => by
        have := hlong hi
        rw [heq] at this
        omega
      rw [number_of, if_neg hne, hlong hi]
      omega
  have hne : ∀ {i j}, i < j → word i ≠ word j := fun {i j} hij heq => by
    have := congrArg (number_of text base) heq
    rw [hnumber, hnumber] at this
    omega
  have hfresh : ∀ {i}, 0 < i → word i ≠ verbatim ∧ word i ≠ claim := fun {i} hi => by
    have := hlong hi
    constructor <;> rintro rfl <;> omega
  obtain ⟨hpos, hle⟩ := same_meaning_cut hpy
  rw [hdraws]
  refine meanings_eq (by simpa using hlabels) fun i j hij hj => ?_
  simp only [List.length_map, List.length_range] at hj
  obtain ⟨hv, hc⟩ := hfresh (show 0 < j by omega)
  have hforward : ¬ (word i, word j) = (verbatim, claim) := fun heq => hc (Prod.mk.inj heq).2
  have hback : ¬ (word j, word i) = (verbatim, claim) := fun heq => hv (Prod.mk.inj heq).1
  simp only [same_meaning, List.getD_eq_getElem?_getD, List.getElem?_map, List.getElem?_range (hij.trans hj),
    List.getElem?_range hj, Option.map_some, Option.getD_some, entailment, if_neg (hne hij),
    if_neg (hne hij).symm, meaning_as, if_neg hforward, if_neg hback, hnumber, decide_eq_true_eq]
  by_cases hsame : labels[i]?.getD 0 = labels[j]?.getD 0
  · rw [if_pos hsame, if_pos hsame.symm]
    exact iff_of_true ⟨hle, hle⟩ hsame
  · rw [if_neg hsame, if_neg (Ne.symm hsame)]
    exact iff_of_false (fun h => absurd h.1 (not_le.mpr hpos)) hsame

/-! ### The modes compared -/

/-- CORRECT: on the same canonical sample both modes extract the same candidates, strict from that sample
    alone. -/
theorem modes_extract_alike {ingest ingest' : Ingest} {request : Submission} {denoised : NoiseResult}
    {strict_extracted queued_extracted : ExtractionResult} {k : ℕ}
    (hstrict : layer1 py ingest (strict request) = .ok (denoised, strict_extracted))
    (hqueued : layer1 py ingest' (enqueue k request) = .ok (denoised, queued_extracted))
    (hfz : ingest'.fz = ingest.fz)
    (hcanonical : queued_extracted.samples.head? = strict_extracted.samples.head?) :
    ∃ canonical further content context, strict_extracted.samples = [canonical] ∧
      queued_extracted.samples = canonical :: further ∧ further.length + 1 = k ∧
      queued_extracted.candidates = strict_extracted.candidates ∧
      to_candidates ingest.fz py content context canonical =
        .ok (strict_extracted.candidates, strict_extracted.dropped_unsourced) := by
  simp only [layer1, bind_ok, Except.ok.injEq, Prod.mk.injEq] at hstrict hqueued
  obtain ⟨_, -, _, hstrict, rfl, rfl⟩ := hstrict
  obtain ⟨_, -, _, hqueued, rfl, rfl⟩ := hqueued
  obtain ⟨context, hcontext, hstrict⟩ := bind_ok.mp hstrict
  obtain ⟨context', hcontext', hqueued⟩ := bind_ok.mp hqueued
  obtain rfl : context = context' := Except.ok.inj (hcontext.symm.trans hcontext')
  obtain ⟨canonical, rest, hsamples, hone, -, hlinked⟩ := extract_ok hstrict
  obtain ⟨canonical', further, hsamples', hk, -, hlinked'⟩ := extract_ok hqueued
  obtain rfl : rest = [] := List.length_eq_zero_iff.mp (Nat.succ.inj hone)
  obtain rfl : canonical' = canonical := by simpa [hsamples, hsamples'] using hcanonical
  rw [hfz] at hlinked'
  have hsame := Except.ok.inj (hlinked'.symm.trans hlinked)
  exact ⟨canonical', further, _, context, hsamples, hsamples', hk, (Prod.mk.inj hsame).1, hlinked⟩

/-- CORRECT: whatever the queue draws besides, and however a model takes it, the queue writes what strict
    writes exactly where each candidate that strict writes would reach the middle cut at the entropy of
    every partition of the draws. -/
theorem strict_narrower_iff (py : Python) (hpy : py.Nearest) (lib : Stdlib) (deps : Deps) (pack : Pack)
    (weights : ConfidenceWeights py) (betas : RiskBetas) (proposal : Proposal) (fz : Rapidfuzz)
    (content : String) (context : ExtractionContext) (canonical : List ExtractedFact) (extracted : Extraction)
    (hextracted : to_candidates fz py content context canonical =
      .ok (extracted.candidates, extracted.dropped_unsourced))
    (around : Surroundings) (k : ℕ) (hk : 2 ≤ k) :
    (∀ (further : List (List ExtractedFact)) (scores : CandidateId → EntailmentPair → UnitFloat),
      further.length + 1 = k →
      (∀ v ∈ (gate py deps.casefold extracted.candidates pack).admitted,
        scores v.id (grounding_pair lib v) = around.scores v.id (grounding_pair lib v)) →
      auto_written (run_on py lib deps pack weights betas proposal extracted around [canonical]) ⊆
        auto_written (run_on py lib deps pack weights betas proposal extracted { around with scores }
          (canonical :: further))) ↔
    ∀ v ∈ (gate py deps.casefold extracted.candidates pack).admitted, ∀ a,
      assess py deps pack weights betas proposal v (answers_at py lib around v [0]) = .ok a →
      ¬ a.Stopped v.candidate deps.thresholds → ∀ labels, Partition k labels →
        deps.thresholds.tau_mid.1 ≤ composite py weights a.confidence (normalised_entropy py lib labels) := by
  have hstrict : ∀ v : GatedCandidate,
      meanings py (around.scores v.id) (draws_for lib [canonical] v.candidate) = [0] := by
    intro v
    refine meanings_eq ⟨rfl, fun i hi => ?_, fun i hi => ?_⟩ fun i j hij hj => ?_
    · simp [Nat.lt_one_iff.mp (by simpa [draws_for] using hi)]
    · simp [Nat.lt_one_iff.mp (by simpa [draws_for] using hi)]
    · simp only [draws_for, List.map_cons, List.map_nil, List.length_singleton] at hj
      omega
  have hgrounds : ∀ {v : GatedCandidate} {scores : CandidateId → EntailmentPair → UnitFloat}
      {labels labels' : List ℕ},
      scores v.id (grounding_pair lib v) = around.scores v.id (grounding_pair lib v) →
      answers_at py lib { around with scores } v labels' =
        { answers_at py lib around v labels with entropy := (normalised_entropy py lib labels').1 } := by
    intro v scores labels labels' hagree
    simp only [answers_at, entailment]
    split_ifs
    · rfl
    · rw [show scores v.id (v.candidate.provenance.verbatim, claim_text lib v.candidate) = _ from hagree]
      rfl
  constructor
  · intro h v hv a ha hfree labels hlabels
    obtain ⟨text, htext⟩ := @first_object_isSome py lib deps pack extracted v fz content context canonical _
      hextracted hv
    set base := text.length + v.candidate.provenance.verbatim.length + (claim_text lib v.candidate).length
      with hbase
    set scores := Function.update around.scores v.id (meaning_as labels text base (grounding_pair lib v)
      (around.scores v.id (grounding_pair lib v))) with hscores
    have hagree : ∀ u ∈ (gate py deps.casefold extracted.candidates pack).admitted,
        scores u.id (grounding_pair lib u) = around.scores u.id (grounding_pair lib u) := by
      intro u hu
      rcases eq_or_ne u.id v.id with hid | hid
      · obtain rfl : u = v := List.inj_on_of_nodup_map (admitted_nodup extracted) hu hv hid
        simp [hscores, meaning_as]
      · rw [hscores, Function.update_of_ne hid]
    have hwritten := h (strokes v.candidate base k) scores (by simp [strokes]; omega) hagree
      ((mem_auto_written (by simp)).mpr ⟨v, hv, rfl, a, by rw [hstrict]; exact ha, hfree⟩)
    obtain ⟨u, hu, hcandidate, a', ha', hfree'⟩ := (mem_auto_written (by simp)).mp hwritten
    have hid : u.id = v.id := congrArg MemoryCandidate.candidate_id hcandidate
    obtain rfl : u = v := List.inj_on_of_nodup_map (admitted_nodup extracted) hu hv hid
    have hmeanings : meanings py (scores u.id)
        (draws_for lib (canonical :: strokes u.candidate base k) u.candidate) = labels := by
      rw [hscores, Function.update_self]
      exact meanings_realised hpy (by omega) htext hbase.ge hlabels
    obtain ⟨confidence, hconfidence, hcomposite⟩ := assess_entropy (normalised_entropy py lib labels) ha
    rw [hmeanings, hgrounds (hagree u hu), hconfidence] at ha'
    obtain rfl := Except.ok.inj ha'
    rw [← hcomposite]
    exact not_lt.mp fun hlow => hfree' (Or.inr (Or.inr (Or.inr (Or.inl hlow))))
  · intro h further scores hlength hagree c hc
    obtain ⟨v, hv, rfl, a, ha, hfree⟩ := (mem_auto_written (by simp)).mp hc
    rw [hstrict] at ha
    set labels := meanings py (scores v.id) (draws_for lib (canonical :: further) v.candidate) with hlabels
    have hpartition : Partition k labels := by
      have := meanings_partition py (scores v.id) (draws_for lib (canonical :: further) v.candidate)
      rwa [show (draws_for lib (canonical :: further) v.candidate).length = k by
        simpa [draws_for] using hlength] at this
    obtain ⟨confidence, hconfidence, hcomposite⟩ := assess_entropy (normalised_entropy py lib labels) ha
    refine (mem_auto_written (by simp)).mpr ⟨v, hv, rfl, { a with confidence }, ?_, ?_⟩
    · rw [hgrounds (hagree v hv)]
      exact hconfidence
    · have hmid := h v hv a ha hfree labels hpartition
      rw [← hcomposite] at hmid
      rintro (hcorroborate | hweb | hescalate | hlow | hrisk)
      · exact hfree (Or.inl hcorroborate)
      · exact hfree (Or.inr (Or.inl hweb))
      · exact hfree (Or.inr (Or.inr (Or.inl hescalate)))
      · exact absurd hlow (not_lt.mpr hmid)
      · exact hfree (Or.inr (Or.inr (Or.inr (Or.inr hrisk))))

/-! ### One statement, asked for in both modes -/

namespace Clinical

/-- The libraries, with the logarithms of two draws. -/
def stdlib : Stdlib where
  dumps _ := "\x7b\x7d"
  repr s := s
  math_log x := if x = 2 then float (693147180559945309 / 10 ^ 18) else 0
  np_log x := if x = 1 / 2 then -float (693147180559945309 / 10 ^ 18) else 0
  np_sum xs := xs.foldl python.add 0

/-- The canonical sample of a document that says `Spanish`, and what is extracted from it. -/
def canonical : List ExtractedFact := [speaks "es" "Spanish"]

def spanish : MemoryCandidate where
  candidate_id := numbered_id 1
  tenant_id := "clinic"
  «namespace» := "patient:1"
  subject := "the patient"
  predicate := "preferred_language"
  object := .str "es"
  provenance :=
    { source_hash := source_hash "Spanish", source_span := (0, 7), source_tier := .VERIFIED_USER
      verbatim := "Spanish", alignment := .one, captured_at := 0
      verbatim_short := by decide, span_real := by decide }
  trace_id := "trace"
  interval_coherent := MemoryCandidate.undated

def spanish_extraction : Extraction := ⟨[spanish], 0, 0, by simp⟩

theorem spanish_extracted : to_candidates .reference python "Spanish" intake canonical =
    .ok (spanish_extraction.candidates, spanish_extraction.dropped_unsourced) := by
  have hlink : link_span .reference python "Spanish" "Spanish" = some ⟨(0, 7), "Spanish", 1⟩ :=
    link_span_eq_some.mpr (Or.inl ⟨by decide, by decide, 0, by decide +kernel, rfl⟩)
  simp only [to_candidates, canonical, List.foldlM_cons, List.foldlM_nil, link_fact, speaks, hlink]
  rfl

/-- Nothing is known of the patient, and every text entails every other. -/
def agreeable : Surroundings := ⟨fun _ => [], fun _ _ => percent 100, fun _ => 0, Db.empty⟩

def spanish_run (deps : Deps) (samples : List (List ExtractedFact)) :
    Call (PipelineResult × List CandidateFailure) :=
  run_on python stdlib deps clinical_pack V1_WEIGHTS V1_BETAS ⟨"trace", "clinic", "patient:1", none⟩
    spanish_extraction agreeable samples

/-- A middle cut that grounding, schema and consistency reach by themselves. -/
def low_cut : Deps :=
  { Clinical.deps with thresholds :=
      { thresholds with
        tau_lo := percent 30
        tau_mid := percent 45
        taus_ordered := by simp only [thresholds, percent]; norm_num } }

end Clinical

open Clinical in
/-- Under a low middle cut the statement is still written when the second draw says nothing. -/
theorem low_cut_spanish :
    auto_written (spanish_run low_cut [canonical]) ⊆ auto_written (spanish_run low_cut [canonical, []]) := by
  refine (strict_narrower_iff python python_nearest stdlib low_cut clinical_pack V1_WEIGHTS V1_BETAS
    ⟨"trace", "clinic", "patient:1", none⟩ .reference "Spanish" intake canonical spanish_extraction
    spanish_extracted agreeable 2 le_rfl).mpr ?_ [[]] agreeable.scores rfl fun _ _ => rfl
  have hreach : ∀ v ∈ (gate python low_cut.casefold spanish_extraction.candidates clinical_pack).admitted,
      ∀ labels ∈ [[0, 0], [0, 1]], ((assess python low_cut clinical_pack V1_WEIGHTS V1_BETAS
        ⟨"trace", "clinic", "patient:1", none⟩ v (answers_at python stdlib agreeable v [0])).toOption.all
          fun a => low_cut.thresholds.tau_mid.1 ≤
            composite python V1_WEIGHTS a.confidence (normalised_entropy python stdlib labels)) = true := by
    decide +kernel
  intro v hv a ha _ labels hlabels
  have hpartition : labels ∈ [[0, 0], [0, 1]] := by
    obtain ⟨i, j, rfl⟩ := List.length_eq_two.mp hlabels.length
    have hi := hlabels.le 0 (by omega)
    have hj := hlabels.le 1 (by omega)
    simp only [List.getD_cons_zero, List.getD_cons_succ] at hi hj
    obtain rfl : i = 0 := Nat.le_zero.mp hi
    rcases Nat.le_one_iff_eq_zero_or_eq_one.mp hj with rfl | rfl <;> simp
  have := hreach v hv labels hpartition
  rw [ha] at this
  simpa [Except.toOption] using this

open Clinical in
/-- The second draw says nothing. Strict, which never drew it, writes the statement; the queue does
    not. -/
theorem strict_writes_spanish : ¬ ∀ (py : Python), py.Nearest → ∀ (lib : Stdlib) (deps : Deps) (pack : Pack)
    (weights : ConfidenceWeights py) (betas : RiskBetas) (proposal : Proposal) (fz : Rapidfuzz)
    (content : String) (context : ExtractionContext) (canonical : List ExtractedFact) (extracted : Extraction),
    to_candidates fz py content context canonical = .ok (extracted.candidates, extracted.dropped_unsourced) →
    ∀ (around : Surroundings) (further : List (List ExtractedFact)), 1 ≤ further.length →
      auto_written (run_on py lib deps pack weights betas proposal extracted around [canonical]) ⊆
        auto_written (run_on py lib deps pack weights betas proposal extracted around
          (canonical :: further)) := by
  intro h
  have hstrict : (auto_written (spanish_run Clinical.deps [Clinical.canonical])).length = 1 := by
    decide +kernel
  have hqueued : (auto_written (spanish_run Clinical.deps [Clinical.canonical, []])).length = 0 := by
    decide +kernel
  have hsub := h python python_nearest stdlib Clinical.deps clinical_pack V1_WEIGHTS V1_BETAS
    ⟨"trace", "clinic", "patient:1", none⟩ .reference "Spanish" intake Clinical.canonical spanish_extraction
    spanish_extracted agreeable [[]] le_rfl
  obtain ⟨c, hc⟩ := List.length_eq_one_iff.mp hstrict
  have hmem : c ∈ auto_written (spanish_run Clinical.deps [Clinical.canonical]) := by simp [hc]
  exact List.eq_nil_iff_forall_not_mem.mp (List.length_eq_zero_iff.mp hqueued) c (hsub hmem)

end GuardMem
