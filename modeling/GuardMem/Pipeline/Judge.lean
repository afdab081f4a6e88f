import GuardMem.Pipeline.Conflict
import GuardMem.Pipeline.Entropy

/-! The two batched judges: `nli.LLMJudge` for conflicts and `entailment.LLMEntailer` for entailment.

    Each sends a numbered list in one BALANCED call and takes the answers back by position, so a reply of
    another length is refused. CORRECT: conflict detection asks its judge only where the deterministic
    checks do not answer, and then reads exactly as many judgements as there are incumbents
    (`detect_judged_ok`). -/

namespace GuardMem

/-- What a batched judge is bound to: the provider, the prompt loader, and `model_validate_json` of its
    reply's schema, where `none` is a `ValidationError`. -/
structure BatchClient (Answer : Type) where
  provider : LLMRequest → Except Exc LLMResponse
  render : String → ℕ → List (String × String) → String
  read : String → Option (List Answer)

/-- Render, complete, refuse an echo of the canary, and read the reply. -/
def BatchClient.ask {Answer : Type} (client : BatchClient Answer) (name schema stage canary : String)
    (fields : List (String × String)) : Except Exc (List Answer) := do
  let prompt := client.render name 1 (fields ++ [("canary", canary)])
  let reply ← client.provider { prompt, schema, tier := .BALANCED }
  reject_echo canary reply.samples
  match client.read (reply.samples.head reply.sampled) with
  | none => .error (.ValidationRejected (stage ++ " did not return " ++ schema))
  | some answers => .ok answers

/-! ### Entailment -/

/-- The pairs as a numbered list. -/
def numbered_pairs (pairs : List EntailmentPair) : String :=
  "\n\n".intercalate (pairs.mapIdx fun index pair =>
    toString (index + 1) ++ ".\n  premise: " ++ pair.1 ++ "\n  hypothesis: " ++ pair.2)

/-- One call over the distinct pairs, and its scores in the order of the reply. -/
def LLMEntailer.score (client : BatchClient UnitFloat) (canary : String) (pairs : List EntailmentPair) :
    Except Exc (List UnitFloat) :=
  client.ask "entail_pairs" "EntailmentBatch" "entailment scoring" canary [("pairs", numbered_pairs pairs)]

/-! ### Contradiction -/

/-- The incumbents' texts as a numbered list. -/
def numbered (incumbents : List String) : String :=
  "\n".intercalate (incumbents.mapIdx fun index text => toString (index + 1) ++ ". " ++ text)

/-- Judge the whole incumbent set in one call; with nothing to compare there is no call. -/
def LLMJudge.compare (client : BatchClient Judgement) (canary candidate : String) (incumbents : List String) :
    Except Exc (List Judgement) :=
  if incumbents = [] then .ok []
  else do
    let judgements ← client.ask "adjudicate_conflict" "AdjudicationBatch" "conflict adjudication" canary
      [("candidate", candidate), ("incumbents", numbered incumbents)]
    if judgements.length ≠ incumbents.length then .error (.ValidationRejected
      ("conflict adjudication returned " ++ toString judgements.length ++ " judgements for " ++
        toString incumbents.length ++ " incumbents; they are paired positionally, so a mismatch would " ++
          "score the wrong fact"))
    else .ok judgements

/-- Does a deterministic check answer before the judge is asked? -/
def AnsweredEarly (candidate : MemoryCandidate) (incumbents : List ScoredAssertion) (spec : PredicateSpec) : Bool :=
  match spec.cardinality with
  | .ONE => (live_incumbent incumbents candidate.object).isSome
  | .ONE_PER_TIME => (first_overlap candidate incumbents).isSome
  | .MANY => false

/-- `detect` with its judge: asked about every incumbent's first citation, and only where nothing else
    answers. -/
def detect_judged (client : BatchClient Judgement) (canary : String) (candidate : MemoryCandidate)
    (incumbents : List ScoredAssertion) (spec : PredicateSpec) : Except Exc ConflictReport :=
  if incumbents = [] ∨ AnsweredEarly candidate incumbents spec then detect candidate incumbents spec []
  else do
    let judgements ← LLMJudge.compare client canary candidate.provenance.verbatim
      (incumbents.map fun hit => (hit.assertion.provenance.head hit.assertion.sourced).verbatim)
    detect candidate incumbents spec judgements

variable {candidate : MemoryCandidate} {incumbents : List ScoredAssertion} {spec : PredicateSpec}
  {client : BatchClient Judgement} {canary : String} {r : ConflictReport}

/-- Past the deterministic checks the judgements decide. -/
theorem detect_undecided (hne : incumbents ≠ []) (h : AnsweredEarly candidate incumbents spec = false)
    (js : List Judgement) : detect candidate incumbents spec js = adjudicate candidate incumbents js := by
  unfold AnsweredEarly at h
  rw [detect, if_neg hne]
  cases hcardinality : spec.cardinality with
  | MANY => rfl
  | ONE =>
      rw [hcardinality] at h
      rw [Option.isSome_eq_false_iff.mp h |> Option.isNone_iff_eq_none.mp]
  | ONE_PER_TIME =>
      rw [hcardinality] at h
      rw [Option.isSome_eq_false_iff.mp h |> Option.isNone_iff_eq_none.mp]

/-- CORRECT: a report that needed the judge was made of one judgement for each incumbent. -/
theorem detect_judged_ok (hne : incumbents ≠ []) (h : AnsweredEarly candidate incumbents spec = false)
    (hr : detect_judged client canary candidate incumbents spec = .ok r) :
    ∃ js : List Judgement, js.length = incumbents.length ∧ detect candidate incumbents spec js = .ok r := by
  have hasked : ¬ (incumbents = [] ∨ AnsweredEarly candidate incumbents spec = true) := by simp [hne, h]
  rw [detect_judged, if_neg hasked] at hr
  obtain ⟨js, hjs, hdetect⟩ := bind_ok.mp hr
  refine ⟨js, ?_, hdetect⟩
  rw [LLMJudge.compare, if_neg (by simpa using hne)] at hjs
  obtain ⟨found, -, hchecked⟩ := bind_ok.mp hjs
  split_ifs at hchecked with hlength
  obtain rfl := Except.ok.inj hchecked
  rw [not_not.mp hlength, List.length_map]

end GuardMem
