import GuardMem.Memory.Store
import GuardMem.Pipeline.Decision

/-! Layers 2 and 3 for one candidate: `per_candidate._decide_one` over `retrieve_incumbents`, `detect`
    and `decide`.

    What a model answered (the judge's numbers, the confidence report, the risk features) is an
    argument. CORRECT: scored under a `ONE` predicate against a key with one readable row, a candidate
    is written only as that row's successor (`score_candidate_single`). -/

namespace GuardMem

/-- One candidate and what was decided about it. -/
structure GovernedCandidate where
  candidate : MemoryCandidate
  subject_id : EntityId
  record : DecisionRecord
  incumbent : Option StoredAssertion
  deriving DecidableEq

/-- One candidate that raised, while it was scored or applied. -/
structure CandidateFailure where
  candidate_id : CandidateId
  error : Exc
  deriving DecidableEq

/-- What the models and the risk score came to for one candidate. -/
structure ScoreReply where
  judgements : List Judgement
  confidence : ConfidenceReport
  risk : UnitFloat
  features : List (String × ℚ)

variable (deps : Deps)

/-- The entity a subject-bound namespace names, stable forever. -/
def derive_entity_id (tenant : TenantId) (ns : Namespace) : EntityId :=
  deps.uuid.of ("guardmem/" ++ tenant ++ "/entity/" ++ ns)

/-- The prefix of a `<type>:<id>` namespace. -/
def subject_type_of (ns : Namespace) : Option String :=
  match ns.toList.takeWhile (· != ':'), ns.toList.dropWhile (· != ':') with
  | c :: pre, _ :: _ :: _ => some (String.ofList (c :: pre))
  | _, _ => none

/-- `repr` of a string with nothing to escape. -/
def quoted (s : String) : String := "'" ++ s ++ "'"

/-- Bind a subject to the namespace's entity, which must be of the type the predicate expects. -/
def resolve (subject : String) (tenant : TenantId) (ns : Namespace) (expected_type : String) :
    Except Exc EntityId :=
  match subject_type_of ns with
  | none => .error (.ValidationRejected
      ("namespace " ++ quoted ns ++ " does not name a subject, so there is nothing " ++
        "to attach " ++ quoted subject ++ " to. Entity resolution binds rather than matches " ++
        "(ADR-0008): use a '<type>:<id>' namespace, or pass hints.subject."))
  | some declared =>
      if deps.casefold declared ≠ deps.casefold expected_type then
        .error (.ValidationRejected
          ("namespace " ++ quoted ns ++ " names a " ++ quoted declared ++ ", and this predicate " ++
            "declares its subject to be a " ++ quoted expected_type ++ ". Writing it anyway " ++
            "would attach a real fact to the wrong kind of thing."))
      else .ok (derive_entity_id deps tenant ns)

/-- `retrieve_incumbents`' `k`. -/
def INCUMBENT_K : ℕ := 10

/-- The incumbent the decision was taken against, out of what retrieval returned. -/
def incumbent_of (conflict : ConflictReport) (nearest : List ScoredAssertion) :
    Option StoredAssertion :=
  match conflict.incumbent_assertion_id with
  | none => none
  | some aid => (nearest.find? fun scored => scored.assertion.assertion_id == aid).map
      ScoredAssertion.assertion

/-- `Ontology.predicate`, where the schema gate admits known predicates only. -/
def spec_of (predicate : String) : Except Exc PredicateSpec :=
  match deps.ontology predicate with
  | some spec => .ok spec
  | none => .error (.ValueError (predicate ++ " is not in the ontology"))

/-- The key a candidate is bound to. -/
def MemoryCandidate.key (tenant : TenantId) (candidate : MemoryCandidate) :
    Except Exc (TenantId × Namespace × EntityId × String) := do
  let spec ← spec_of deps candidate.predicate
  let subject_id ← resolve deps candidate.subject tenant candidate.namespace spec.subject
  .ok (tenant, candidate.namespace, subject_id, candidate.predicate)

/-- Decide one candidate against the store as it is now. -/
def score_candidate (tenant : TenantId) (candidate : MemoryCandidate) (reply : ScoreReply) (db : Db) :
    Except Exc GovernedCandidate := do
  let spec ← spec_of deps candidate.predicate
  let subject_id ← resolve deps candidate.subject tenant candidate.namespace spec.subject
  let nearest ← search deps tenant candidate.namespace subject_id candidate.predicate
    (deps.embedding candidate.predicate candidate.object) INCUMBENT_K db
  let conflict ← detect candidate nearest spec reply.judgements
  let record := decide reply.confidence
    ⟨spec.impact, reply.risk, reply.features, [], by simp⟩ conflict deps.thresholds false
    (override_signals candidate spec deps.policy_version conflict.kind)
  .ok ⟨candidate, subject_id, record, incumbent_of conflict nearest⟩

variable {deps} {tenant : TenantId} {c : MemoryCandidate} {reply : ScoreReply} {db : Db}
  {g : GovernedCandidate}

/-- What scoring came from. -/
theorem score_candidate_ok (h : score_candidate deps tenant c reply db = .ok g) :
    g.candidate = c ∧ ∃ spec nearest,
      deps.ontology c.predicate = some spec ∧
      search deps tenant c.namespace g.subject_id c.predicate
        (deps.embedding c.predicate c.object) INCUMBENT_K db = .ok nearest ∧
      detect c nearest spec reply.judgements = .ok g.record.conflict ∧
      (g.record.conflict.resolution_hint = .escalate → g.record.decision ≠ .AUTO_WRITE) := by
  simp only [score_candidate, bind_ok, Except.ok.injEq] at h
  obtain ⟨spec, hspec, sid, -, nearest, hsearch, conflict, hdetect, rfl⟩ := h
  have hspec' : deps.ontology c.predicate = some spec := by
    unfold spec_of at hspec
    split at hspec
    · next s hs => exact hs.trans (congrArg some (Except.ok.inj hspec))
    · exact absurd hspec (by simp)
  exact ⟨rfl, spec, nearest, hspec', hsearch, hdetect, decide_escalate⟩

/-- A candidate is scored under the key it is bound to. -/
theorem score_candidate_key (h : score_candidate deps tenant c reply db = .ok g) :
    c.key deps tenant = .ok (tenant, c.namespace, g.subject_id, c.predicate) := by
  simp only [score_candidate, bind_ok, Except.ok.injEq] at h
  obtain ⟨spec, hspec, sid, hsid, -, -, -, -, rfl⟩ := h
  exact bind_ok.mpr ⟨spec, hspec, bind_ok.mpr ⟨sid, hsid, rfl⟩⟩

/-- Against a key with no readable row a candidate is reported as a novel fact. -/
theorem score_candidate_novel (h : score_candidate deps tenant c reply db = .ok g)
    (hrow : db.assertions.filter (readable tenant c.namespace g.subject_id c.predicate) = []) :
    g.record.conflict = no_conflict := by
  obtain ⟨-, spec, nearest, -, hsearch, hdetect, -⟩ := score_candidate_ok h
  have hnone : nearest = [] := by
    simp only [search, hrow, List.insertionSort_nil, List.take_nil, collect] at hsearch
    exact (Except.ok.inj hsearch).symm
  rw [hnone, detect, if_pos rfl] at hdetect
  exact (Except.ok.inj hdetect).symm

/-- Against the one readable row of a `ONE` key, an undated candidate with another value supersedes that
    row; one with the same value merges, or is not written. -/
theorem score_candidate_judged (h : score_candidate deps tenant c reply db = .ok g)
    {spec : PredicateSpec} (hspec : deps.ontology c.predicate = some spec)
    (hone : spec.cardinality = .ONE) (hfrom : c.valid_from = none) (hto : c.valid_to = none)
    {r : AssertionRow}
    (hrow : db.assertions.filter (readable tenant c.namespace g.subject_id c.predicate) = [r]) :
    ∃ v, ObjectValue.ofJson r.object_json = some v ∧
      (v.pyEq c.object = false → g.record.conflict.resolution_hint = .supersede ∧
        g.record.conflict.incumbent_assertion_id = some r.id) ∧
      (v.pyEq c.object = true →
        g.record.conflict.resolution_hint = .merge ∨ g.record.decision ≠ .AUTO_WRITE) := by
  obtain ⟨-, spec', nearest, hspec', hsearch, hdetect, hesc⟩ := score_candidate_ok h
  obtain rfl : spec' = spec := Option.some.inj (hspec'.symm.trans hspec)
  obtain ⟨hit, rfl, hhyd⟩ := search_single deps (by decide) hrow hsearch
  simp only [hydrate, bind_ok] at hhyd
  obtain ⟨_, -, hhyd⟩ := hhyd
  obtain ⟨hid, -, -, -, hobject, -⟩ := assertion_from_row_ok hhyd
  refine ⟨_, hobject, fun hobj => ?_, fun hobj => ?_⟩
  · obtain ⟨hsup, hinc⟩ := detect_differs hone hobj hdetect
    exact ⟨hsup, hinc.trans (congrArg some hid)⟩
  · exact (detect_restates hone hfrom hto hobj hdetect).imp_right hesc

/-- The incumbent a report names was readable when the candidate was scored. -/
theorem score_candidate_incumbent (h : score_candidate deps tenant c reply db = .ok g)
    {aid : AssertionId} (haid : g.record.conflict.incumbent_assertion_id = some aid) :
    ∃ r ∈ db.assertions, r.id = aid ∧
      readable tenant c.namespace g.subject_id c.predicate r = true := by
  obtain ⟨-, spec, nearest, -, hsearch, hdetect, -⟩ := score_candidate_ok h
  obtain ⟨hit, hhit, rfl⟩ := detect_incumbent hdetect haid
  obtain ⟨r, hr, hread, hhyd⟩ := search_mem deps hsearch hhit
  simp only [hydrate, bind_ok] at hhyd
  obtain ⟨_, -, hhyd⟩ := hhyd
  exact ⟨r, hr, (assertion_from_row_ok hhyd).1.symm, hread⟩

/-- CORRECT: against the one readable row of a `ONE` key, an undated candidate supersedes that row, or
    nothing is written. -/
theorem score_candidate_single (h : score_candidate deps tenant c reply db = .ok g)
    {spec : PredicateSpec} (hspec : deps.ontology c.predicate = some spec)
    (hone : spec.cardinality = .ONE) (hfrom : c.valid_from = none) (hto : c.valid_to = none)
    {r : AssertionRow}
    (hrow : db.assertions.filter (readable tenant c.namespace g.subject_id c.predicate) = [r]) :
    (g.record.conflict.resolution_hint = .supersede ∧
        g.record.conflict.incumbent_assertion_id = some r.id) ∨
      g.record.conflict.resolution_hint = .merge ∨ g.record.decision ≠ .AUTO_WRITE := by
  obtain ⟨v, -, hdiffers, hrestates⟩ := score_candidate_judged h hspec hone hfrom hto hrow
  cases hobj : v.pyEq c.object with
  | false => exact Or.inl (hdiffers hobj)
  | true => exact Or.inr (hrestates hobj)

end GuardMem
