import GuardMem.Lib.Numeral
import GuardMem.Lib.Sha256
import GuardMem.Pipeline.Orchestrator
import GuardMem.Pipeline.SpanLinker

/-! K-sample extraction: `extractor.extract` over a provider's adapter.

    The adapter checks the fan-out ceiling and hands the request to its provider, whose answer is an
    argument, as are the rendered prompt files, the canary and pydantic's reader of a reply. CORRECT:
    where no citation is refused, every fact of the canonical sample is a candidate or is counted, in
    order, and the candidates are numbered from one (`to_candidates_accounts`). -/

namespace GuardMem

/-! ### The provider -/

/-- Which class of model serves a call. -/
inductive Tier where
  | FAST
  | BALANCED
  | FRONTIER
  deriving DecidableEq

/-- One completion: at least one sample, in draw order. -/
structure LLMResponse where
  samples : List String
  sampled : samples ≠ []

/-- What `LLMClient.complete` is asked for. -/
structure LLMRequest where
  prompt : String
  schema : String
  tier : Tier
  temperature : ℚ := 0
  n : ℕ := 1

/-- The ceiling on `n`. -/
def MAX_SAMPLES : ℕ := 10

/-- Check `n` against the fan-out ceiling. -/
def require_samples (n : ℕ) : Except Exc Unit :=
  if n < 1 then .error (.ValueError ("n must be at least 1, got " ++ toString n))
  else if MAX_SAMPLES < n then .error (.ValueError
    ("n=" ++ toString n ++ " exceeds the fan-out ceiling of 10. Two of the three adapters satisfy n by " ++
      "issuing that many concurrent requests, and RULES.md §2.2 forbids unbounded fan-out. " ++
      "MEMORY_ENGINE.md §1.2's ladder is 1, 3 or 5."))
  else .ok ()

/-- What Layer 1 calls: the provider, `prompts.loader.render`, and `model_validate_json` of its two
    replies' schemas, where `none` is a `ValidationError`. -/
structure LLMClient (Fact Verdict : Type) where
  provider : LLMRequest → Except Exc LLMResponse
  render : String → ℕ → List (String × String) → String
  read_facts : String → Option (List Fact)
  read_verdicts : String → Option (List Verdict)

/-- `LLMClient.complete`, as every adapter does it. -/
def LLMClient.complete {Fact Verdict : Type} (llm : LLMClient Fact Verdict) (request : LLMRequest) :
    Except Exc LLMResponse := do
  require_samples request.n
  llm.provider request

/-- Refuse a reply in which any sample repeats the canary. -/
def reject_echo (canary : String) (samples : List String) : Except Exc Unit :=
  if samples.any fun sample => (find canary sample).isSome then .error .InjectionDetected else .ok ()

/-! ### What a model may assert, and what it may not -/

/-- One fact exactly as the extraction model returned it. -/
@[ext] structure ExtractedFact where
  subject : String
  predicate : String
  object : ObjectValue
  verbatim : String
  verbatim_short : verbatim.length ≤ 2000

instance : DecidableEq ExtractedFact := fun _ _ => decidable_of_iff' _ ExtractedFact.ext_iff

/-- The fields a model may not supply, supplied by the caller. -/
structure ExtractionContext where
  tenant_id : TenantId
  «namespace» : Namespace
  trace_id : TraceId
  source_tier : SourceTier
  captured_at : Time

/-- The digest the spans are recorded against. -/
def source_hash (content : String) : String :=
  "sha256:" ++ String.ofList (Lib.Sha256.hex (Lib.Sha256.sha256 content.toByteArray.data.toList))

/-- `Provenance(...)`; the first check that fails names its field. -/
def Provenance.construct (source_hash : String) (span : ℕ × ℕ) (tier : SourceTier) (verbatim : String)
    (alignment : ℚ) (captured_at : Time) : Except Exc Provenance :=
  if hv : verbatim.length ≤ 2000 then
    if ha : 0 ≤ alignment ∧ alignment ≤ 1 then
      if hs : span.1 < span.2 then
        .ok ⟨source_hash, span, tier, verbatim, ⟨alignment, ha⟩, captured_at, hv, hs⟩
      else .error (.ValidationError "source_span")
    else .error (.ValidationError "alignment")
  else .error (.ValidationError "verbatim")

/-- `c_1`, `c_2`, … over the survivors. -/
def numbered_id (n : ℕ) : CandidateId := "c_" ++ toString n

variable (fz : Rapidfuzz) (py : Python) (content : String) (context : ExtractionContext)

/-- Wrap a sourced fact as the next candidate. -/
def to_candidate (fact : ExtractedFact) (number : ℕ) (provenance : Provenance) : MemoryCandidate where
  candidate_id := numbered_id number
  tenant_id := context.tenant_id
  «namespace» := context.namespace
  subject := fact.subject
  predicate := fact.predicate
  object := fact.object
  provenance := provenance
  trace_id := context.trace_id
  interval_coherent := MemoryCandidate.undated

/-- Span-link one fact: a candidate more, or an unsourced fact more. -/
def link_fact (acc : List MemoryCandidate × ℕ) (fact : ExtractedFact) :
    Except Exc (List MemoryCandidate × ℕ) :=
  match link_span fz py fact.verbatim content with
  | none => .ok (acc.1, acc.2 + 1)
  | some found => do
      let provenance ← Provenance.construct (source_hash content) found.span context.source_tier found.text
        found.alignment context.captured_at
      .ok (acc.1 ++ [to_candidate context fact (acc.1.length + 1) provenance], acc.2)

/-- Span-link the canonical facts and wrap the survivors as candidates. -/
def to_candidates (facts : List ExtractedFact) : Except Exc (List MemoryCandidate × ℕ) :=
  facts.foldlM (link_fact fz py content context) ([], 0)

/-! ### Drawing and parsing -/

variable {Verdict : Type} (llm : LLMClient ExtractedFact Verdict)

/-- Draw K samples: the canonical one at temperature 0, the rest at 0.7. -/
def draw (prompt : String) (k : ℕ) (tier : Tier) : Except Exc (List LLMResponse) := do
  let canonical ← llm.complete { prompt, schema := "ExtractionBatch", tier }
  if k = 1 then .ok [canonical]
  else do
    let spread ← llm.complete
      { prompt, schema := "ExtractionBatch", tier, temperature := py.round (7 / 10), n := k - 1 }
    .ok [canonical, spread]

/-- Validate the samples from `index` on. -/
def parse_from (index : ℕ) : List String → Except Exc (List (List ExtractedFact))
  | [] => .ok []
  | sample :: samples =>
      match llm.read_facts sample with
      | none => .error (.ValidationRejected
          ("extraction sample " ++ toString index ++ " did not validate against ExtractionBatch"))
      | some facts => do
          let parsed ← parse_from (index + 1) samples
          .ok (facts :: parsed)

/-- Flatten the responses into exactly K validated sample sets, canonical first. -/
def parse (responses : List LLMResponse) (k : ℕ) : Except Exc (List (List ExtractedFact)) :=
  let samples := responses.flatMap LLMResponse.samples
  if samples.length ≠ k then .error .ProviderUnavailable else parse_from llm 0 samples

/-- What Layer 1 produced from one proposal, every sample's facts in draw order. -/
structure ExtractionResult extends Extraction where
  samples : List (List ExtractedFact)

/-! ### What becomes of the facts -/

/-- The claimed triple. -/
def ExtractedFact.said (fact : ExtractedFact) : String × String × ObjectValue :=
  (fact.subject, fact.predicate, fact.object)

def MemoryCandidate.said (c : MemoryCandidate) : String × String × ObjectValue :=
  (c.subject, c.predicate, c.object)

/-- The fact's verbatim has a span. -/
def sourced (fact : ExtractedFact) : Bool := (link_span fz py fact.verbatim content).isSome

/-- The citation quotes the document, at a span that is there. -/
def Cites (p : Provenance) : Prop :=
  p.source_span.1 < p.source_span.2 ∧ p.source_span.2 ≤ content.length ∧
    slice content p.source_span.1 p.source_span.2 = p.verbatim ∧ p.verbatim.length ≤ 2000 ∧
    0 ≤ p.alignment.1 ∧ p.alignment.1 ≤ 1

/-- Every fact is a candidate or is counted, one by one and in order. -/
structure Accounts (facts : List ExtractedFact) (out : List MemoryCandidate × ℕ) : Prop where
  said : out.1.map MemoryCandidate.said = (facts.filter (sourced fz py content)).map ExtractedFact.said
  unsourced : out.2 = facts.countP fun fact => ! sourced fz py content fact
  numbers : out.1.map MemoryCandidate.candidate_id = (List.range' 1 out.1.length).map numbered_id
  stamped : ∀ c ∈ out.1, c.tenant_id = context.tenant_id ∧ c.namespace = context.namespace ∧
    c.trace_id = context.trace_id ∧ c.valid_from = none ∧ c.valid_to = none

/-- The snapped citation of the fact, if it takes one, has some text and not too much. -/
def Citable (fact : ExtractedFact) : Prop :=
  ∀ x, Fuzzy fz fact.verbatim content x →
    0 < cited_width content x.dest_start x.dest_end ∧ cited_width content x.dest_start x.dest_end ≤ 2000

variable {fz py content context} {facts done : List ExtractedFact} {fact : ExtractedFact}
  {acc out : List MemoryCandidate × ℕ}

theorem Provenance.construct_ok {source_hash verbatim : String} {span : ℕ × ℕ} {tier : SourceTier}
    {alignment : ℚ} {captured_at : Time} {p : Provenance} :
    Provenance.construct source_hash span tier verbatim alignment captured_at = .ok p ↔
      ∃ (hv : verbatim.length ≤ 2000) (ha : 0 ≤ alignment ∧ alignment ≤ 1) (hs : span.1 < span.2),
        p = ⟨source_hash, span, tier, verbatim, ⟨alignment, ha⟩, captured_at, hv, hs⟩ := by
  unfold Provenance.construct
  split_ifs with hv ha hs
  · simp only [Except.ok.injEq, hv, ha, hs, and_self, exists_true_left]
    exact eq_comm
  all_goals simp_all

theorem Fuzzy.citable {x : ScoreAlignment} (h : Fuzzy fz fact.verbatim content x) :
    Citable fz content fact ↔ 0 < cited_width content x.dest_start x.dest_end ∧
      cited_width content x.dest_start x.dest_end ≤ 2000 := by
  constructor
  · exact fun hcitable => hcitable x h
  · intro hwidth y hy
    obtain rfl : x = y := Option.some.inj (h.aligned.symm.trans hy.aligned)
    exact hwidth

/-- A ratio between 0 and 100 makes an alignment. -/
theorem alignment_unit (hfz : fz.InRange) (hpy : py.KeepsUnit) (a b : String) :
    0 ≤ py.div (fz.ratio a b) 100 ∧ py.div (fz.ratio a b) 100 ≤ 1 := by
  obtain ⟨h0, h100⟩ := hfz.ratio_range a b
  exact hpy _ (div_nonneg h0 (by norm_num)) (by linarith)

/-- One fact is refused only for its citation's width. -/
theorem link_fact_isOk (hfz : fz.InRange) (hpy : py.KeepsUnit) :
    (∃ out, link_fact fz py content context acc fact = .ok out) ↔ Citable fz content fact := by
  unfold link_fact
  cases hlink : link_span fz py fact.verbatim content with
  | none =>
      refine iff_of_true ⟨_, rfl⟩ fun x hx => ?_
      rw [link_span_eq_some.mpr (Or.inr ⟨x, hx, rfl⟩)] at hlink
      exact absurd hlink (by simp)
  | some found =>
      have hconstruct : (∃ out, link_fact fz py content context acc fact = .ok out) ↔
          ∃ p, Provenance.construct (source_hash content) found.span context.source_tier found.text
            found.alignment context.captured_at = .ok p := by
        simp only [link_fact, hlink, bind_ok, Except.ok.injEq]
        constructor
        · rintro ⟨out, p, hp, -⟩
          exact ⟨p, hp⟩
        · rintro ⟨p, hp⟩
          exact ⟨_, p, hp, rfl⟩
      simp only [link_fact, hlink] at hconstruct
      rw [hconstruct]
      simp only [Provenance.construct_ok]
      rcases link_span_eq_some.mp hlink with ⟨hblank, -, start, hfind, rfl⟩ | ⟨x, hx, rfl⟩
      · have hpos := length_pos_of_nonblank hblank
        refine iff_of_true ⟨_, fact.verbatim_short, ⟨zero_le_one, le_rfl⟩, by dsimp only; omega, rfl⟩ ?_
        intro x hx
        rw [hx.absent] at hfind
        exact absurd hfind (by simp)
      · obtain ⟨hle, hend⟩ := hfz.window_range _ _ _ hx.aligned
        obtain ⟨hstop, hwidth⟩ := snap_range hle hend
        have hlength := @length_slice content (snap content x.dest_start x.dest_end).1 _ hstop
        rw [hx.citable]
        constructor
        · rintro ⟨_, hshort, -, hspan, -⟩
          simp only [cited] at hshort hspan
          omega
        · rintro ⟨hpos, hshort⟩
          exact ⟨_, by simp only [cited]; omega, alignment_unit hfz hpy _ _, by simp only [cited]; omega, rfl⟩

/-- One more fact is accounted for. -/
theorem link_fact_accounts (h : Accounts fz py content context done acc)
    (hlink : link_fact fz py content context acc fact = .ok out) :
    Accounts fz py content context (done ++ [fact]) out := by
  unfold link_fact at hlink
  cases hfound : link_span fz py fact.verbatim content with
  | none =>
      rw [hfound] at hlink
      obtain rfl := Except.ok.inj hlink
      have hunsourced : sourced fz py content fact = false := by simp [sourced, hfound]
      exact ⟨by simp [h.said, hunsourced], by simp [h.unsourced, hunsourced], h.numbers, h.stamped⟩
  | some found =>
      simp only [hfound, bind_ok, Except.ok.injEq] at hlink
      obtain ⟨p, -, rfl⟩ := hlink
      have hsourced : sourced fz py content fact = true := by simp [sourced, hfound]
      refine ⟨by simp [h.said, hsourced, MemoryCandidate.said, ExtractedFact.said, to_candidate],
        by simp [h.unsourced, hsourced], ?_, ?_⟩
      · rw [List.length_append, List.length_singleton, List.range'_concat]
        simp [h.numbers, to_candidate, Nat.add_comm]
      · intro c hc
        rcases List.mem_append.mp hc with hc | hc
        · exact h.stamped c hc
        · obtain rfl := List.mem_singleton.mp hc
          exact ⟨rfl, rfl, rfl, rfl, rfl⟩

/-- One more citation quotes the document. -/
theorem link_fact_cites (hfz : fz.InRange) (h : ∀ c ∈ acc.1, Cites content c.provenance)
    (hlink : link_fact fz py content context acc fact = .ok out) :
    ∀ c ∈ out.1, Cites content c.provenance := by
  unfold link_fact at hlink
  cases hfound : link_span fz py fact.verbatim content with
  | none =>
      rw [hfound] at hlink
      obtain rfl := Except.ok.inj hlink
      exact h
  | some found =>
      simp only [hfound, bind_ok, Except.ok.injEq] at hlink
      obtain ⟨p, hp, rfl⟩ := hlink
      obtain ⟨hshort, halign, hspan, rfl⟩ := Provenance.construct_ok.mp hp
      obtain ⟨hstop, hslice⟩ := link_span_slice hfz hfound
      intro c hc
      rcases List.mem_append.mp hc with hc | hc
      · exact h c hc
      · obtain rfl := List.mem_singleton.mp hc
        exact ⟨hspan, hstop, hslice, hshort, halign⟩

/-- What each step of a loop keeps of the steps done, the loop keeps. -/
theorem foldlM_ok {α β : Type} {f : β → α → Except Exc β} (P : List α → β → Prop)
    (hstep : ∀ done acc x out, P done acc → f acc x = .ok out → P (done ++ [x]) out) {xs : List α}
    {start out : β} (hstart : P [] start) (h : xs.foldlM f start = .ok out) : P xs out := by
  have hrun : ∀ (xs done : List α) (acc : β), P done acc → xs.foldlM f acc = .ok out →
      P (done ++ xs) out := by
    intro xs
    induction xs with
    | nil =>
        intro done acc hacc hout
        obtain rfl := Except.ok.inj hout
        rwa [List.append_nil]
    | cons x xs ih =>
        intro done acc hacc hout
        rw [List.foldlM_cons] at hout
        obtain ⟨next, hnext, hrest⟩ := bind_ok.mp hout
        have := ih (done ++ [x]) next (hstep done acc x next hacc hnext) hrest
        rwa [List.append_assoc] at this
  exact hrun xs [] start hstart h

/-- CORRECT: whatever facts the canonical sample holds, each is a candidate or is counted. -/
theorem to_candidates_accounts (h : to_candidates fz py content context facts = .ok out) :
    Accounts fz py content context facts out :=
  foldlM_ok (Accounts fz py content context) (fun _ _ _ _ => link_fact_accounts)
    ⟨rfl, rfl, rfl, by simp⟩ h

theorem to_candidates_cites (hfz : fz.InRange) (h : to_candidates fz py content context facts = .ok out) :
    ∀ c ∈ out.1, Cites content c.provenance :=
  foldlM_ok (fun _ out => ∀ c ∈ out.1, Cites content c.provenance)
    (fun _ _ _ _ => link_fact_cites hfz) (by simp) h

/-- A number is told by its digits. -/
theorem numbered_id_injective : Function.Injective numbered_id := by
  intro m n h
  have hdigits := congrArg String.toList h
  simp only [numbered_id, String.toList_append, Nat.toString_eq_ofList_toDigits,
    String.toList_ofList] at hdigits
  exact Lib.Numeral.toDigits_inj (List.append_cancel_left hdigits)

/-- CORRECT: no two candidates of an extraction share an id. -/
theorem to_candidates_nodup (h : to_candidates fz py content context facts = .ok out) :
    (out.1.map MemoryCandidate.candidate_id).Nodup := by
  rw [(to_candidates_accounts h).numbers]
  exact List.Nodup.map numbered_id_injective List.nodup_range'

/-- CORRECT: the extraction survives its citations exactly where each of them is in bounds. -/
theorem to_candidates_isOk (hfz : fz.InRange) (hpy : py.KeepsUnit) :
    (∃ out, to_candidates fz py content context facts = .ok out) ↔
      ∀ fact ∈ facts, Citable fz content fact := by
  have hrun : ∀ (facts : List ExtractedFact) (acc : List MemoryCandidate × ℕ),
      (∃ out, facts.foldlM (link_fact fz py content context) acc = .ok out) ↔
        ∀ fact ∈ facts, Citable fz content fact := by
    intro facts
    induction facts with
    | nil => exact fun acc => iff_of_true ⟨acc, rfl⟩ (by simp)
    | cons fact facts ih =>
        intro acc
        simp only [List.foldlM_cons, bind_ok, List.forall_mem_cons]
        constructor
        · rintro ⟨out, next, hnext, hrest⟩
          exact ⟨(link_fact_isOk hfz hpy).mp ⟨next, hnext⟩, (ih next).mp ⟨out, hrest⟩⟩
        · rintro ⟨hfact, hfacts⟩
          obtain ⟨next, hnext⟩ := (link_fact_isOk hfz hpy).mpr hfact
          obtain ⟨out, hrest⟩ := (ih next).mpr hfacts
          exact ⟨out, next, hnext, hrest⟩
  exact hrun facts ([], 0)

/-! ### The whole extraction -/

section

variable (fz : Rapidfuzz) (py : Python) (content : String) (context : ExtractionContext)
  {Verdict : Type} (llm : LLMClient ExtractedFact Verdict)

/-- Span-link the canonical sample. -/
def assemble (samples : List (List ExtractedFact)) (dropped_noise : ℕ) : Except Exc ExtractionResult :=
  match samples with
  | [] => .error (.KeyError "0")
  | canonical :: _ =>
      match hout : to_candidates fz py content context canonical with
      | .error exc => .error exc
      | .ok (candidates, unsourced) => .ok
          { candidates := candidates, samples := samples
            dropped_noise := dropped_noise, dropped_unsourced := unsourced
            numbered := to_candidates_nodup hout }

def PROMPT_NAME : String := "extract_memories"

def PROMPT_VERSION : ℕ := 2

/-- Extract durable facts from `content`, K times, and span-link the canonical set. -/
def extract (ontology_yaml : String) (canary : String) (k : ℕ) (tier : Tier) (dropped_noise : ℕ) :
    Except Exc ExtractionResult := do
  if k < 1 then .error (.ValueError ("k must be at least 1, got " ++ toString k))
  else do
    let prompt := llm.render PROMPT_NAME PROMPT_VERSION
      [("content", content), ("ontology", ontology_yaml), ("canary", canary)]
    let responses ← draw py llm prompt k tier
    reject_echo canary (responses.flatMap LLMResponse.samples)
    let samples ← parse llm responses k
    assemble fz py content context samples dropped_noise

variable {fz py content context llm}

theorem parse_from_length : ∀ (samples : List String) (index : ℕ) (parsed : List (List ExtractedFact)),
    parse_from llm index samples = .ok parsed → parsed.length = samples.length := by
  intro samples
  induction samples with
  | nil =>
      intro index parsed h
      obtain rfl := Except.ok.inj h
      rfl
  | cons sample samples ih =>
      intro index parsed h
      unfold parse_from at h
      split at h
      · exact absurd h (by simp)
      · simp only [bind_ok, Except.ok.injEq] at h
        obtain ⟨rest, hrest, rfl⟩ := h
        simp [ih _ _ hrest]

/-- CORRECT: there are exactly as many sample sets as were asked for. -/
theorem parse_length {responses : List LLMResponse} {k : ℕ} {samples : List (List ExtractedFact)}
    (h : parse llm responses k = .ok samples) : samples.length = k := by
  unfold parse at h
  dsimp only at h
  split_ifs at h with hcount
  exact (parse_from_length _ _ _ h).trans (not_not.mp hcount)

/-- What an extraction returns is what becomes of its canonical sample. -/
theorem extract_ok {ontology_yaml canary : String} {k dropped_noise : ℕ} {tier : Tier}
    {extracted : ExtractionResult}
    (h : extract fz py content context llm ontology_yaml canary k tier dropped_noise = .ok extracted) :
    ∃ canonical rest, extracted.samples = canonical :: rest ∧ rest.length + 1 = k ∧
      extracted.dropped_noise = dropped_noise ∧ to_candidates fz py content context canonical =
        .ok (extracted.candidates, extracted.dropped_unsourced) := by
  unfold extract at h
  split at h
  · cases h
  · simp only [bind_ok] at h
    obtain ⟨_, -, _, -, samples, hparse, hassemble⟩ := h
    have hlength := parse_length hparse
    unfold assemble at hassemble
    cases samples with
    | nil => cases hassemble
    | cons canonical rest =>
        dsimp only at hassemble
        split at hassemble
        · cases hassemble
        · next hout =>
            obtain rfl := Except.ok.inj hassemble
            exact ⟨canonical, rest, rfl, hlength, rfl, hout⟩

end

end GuardMem
