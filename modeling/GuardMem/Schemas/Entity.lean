import GuardMem.Schemas.Base

/-! Citations, candidates and the assertions they become.

    Each validator of the program is a field here, so a value that the program would refuse to
    construct has no counterpart. -/

namespace GuardMem

/-- How far the content a claim rests on may be trusted. -/
inductive SourceTier where
  | TRUSTED_SYSTEM
  | VERIFIED_USER
  | UNVERIFIED_USER
  | TOOL_OUTPUT
  | RETRIEVED_WEB
  deriving DecidableEq

def SourceTier.value : SourceTier → String
  | .TRUSTED_SYSTEM => "trusted_system"
  | .VERIFIED_USER => "verified_user"
  | .UNVERIFIED_USER => "unverified_user"
  | .TOOL_OUTPUT => "tool_output"
  | .RETRIEVED_WEB => "retrieved_web"

/-- `SourceTier(value)`: any other text is a `ValueError`. -/
def SourceTier.ofValue (text : String) : Option SourceTier :=
  [.TRUSTED_SYSTEM, .VERIFIED_USER, .UNVERIFIED_USER, .TOOL_OUTPUT, .RETRIEVED_WEB].find?
    fun tier => tier.value == text

@[simp] theorem SourceTier.ofValue_value (t : SourceTier) : ofValue t.value = some t := by
  cases t <;> decide

/-- Where a claim came from, exactly: a half-open span of a document and the text it covers. -/
structure Provenance where
  source_hash : String
  source_span : ℕ × ℕ
  source_tier : SourceTier
  verbatim : String
  alignment : UnitFloat
  captured_at : Time
  verbatim_short : verbatim.length ≤ 2000
  span_real : source_span.1 < source_span.2
  deriving DecidableEq

theorem verbatim_empty : "".length ≤ 2000 := by decide

/-- One proposed fact, not yet governed and not yet durable. -/
structure MemoryCandidate where
  candidate_id : CandidateId
  tenant_id : TenantId
  «namespace» : Namespace
  subject : String
  predicate : String
  object : ObjectValue
  valid_from : Option Time := none
  valid_to : Option Time := none
  provenance : Provenance
  trace_id : TraceId
  interval_coherent : ∀ f ∈ valid_from, ∀ t ∈ valid_to, f ≤ t
  deriving DecidableEq

theorem MemoryCandidate.undated : ∀ f ∈ (none : Option Time), ∀ t ∈ (none : Option Time), f ≤ t := by simp

/-- A durable fact: bitemporal, sourced, and never deleted. -/
structure StoredAssertion where
  assertion_id : AssertionId
  tenant_id : TenantId
  «namespace» : Namespace
  subject_id : EntityId
  predicate : String
  object : ObjectValue
  confidence : UnitFloat
  risk : UnitFloat
  valid_from : Time
  valid_to : Option Time := none
  recorded_at : Time
  retracted_at : Option Time := none
  superseded_by : Option AssertionId := none
  provenance : List Provenance
  corroboration_count : ℕ := 1
  trace_id : TraceId
  visible : Bool := false
  sourced : provenance ≠ []
  corroborated : 1 ≤ corroboration_count
  interval_coherent : ∀ t ∈ valid_to, valid_from ≤ t
  deriving DecidableEq

/-- One `ASSERTS` relationship in the entity graph. -/
structure Edge where
  assertion_id : AssertionId
  subject_id : EntityId
  predicate : String
  object : ObjectValue
  confidence : UnitFloat
  valid_from : Time
  valid_to : Option Time
  trace_id : TraceId
  deriving DecidableEq

end GuardMem
