import GuardMem.Pipeline.Scoring

/-! The ontology schema gate: `schema_gate.gate`, over the whole declaration of a predicate.

    CORRECT: what the gate admits carries a declared predicate and a value of its declared type
    (`admitted_spec`), and nothing of it says anything about the source's tier. -/

namespace GuardMem

/-! ### The declaration -/

inductive ScalarType where
  | text
  | boolean
  | number
  deriving DecidableEq

/-- The value domains a predicate may declare. -/
inductive ObjectSpec where
  | scalar (type : ScalarType)
  | coded (system : String)
  | entity_ref (entity : String)
  deriving DecidableEq

/-- What one predicate is allowed to say, and how dangerous saying it is. -/
structure PredicateDecl extends PredicateSpec where
  object : ObjectSpec
  pii_class : PiiClass
  irreversibility : Irreversibility
  min_source_tier : SourceTier
  deriving DecidableEq

/-- The pack: `Ontology.predicate` with all it declares. -/
abbrev Pack := String → Option PredicateDecl

/-! ### The gate -/

inductive GateOutcome where
  | PASS
  | COERCED
  | QUARANTINED
  | REJECTED
  deriving DecidableEq

/-- One candidate as it should continue, and what the gate made of it. -/
structure GatedCandidate where
  candidate : MemoryCandidate
  outcome : GateOutcome
  schema_fit : ℚ
  reason_code : String
  deriving DecidableEq

structure SchemaGateResult where
  admitted : List GatedCandidate
  quarantined : List GatedCandidate
  rejected : List GatedCandidate

variable (py : Python) (casefold : String → String)

/-- Fit a value to a `text` predicate. -/
def as_text : ObjectValue → Option (ObjectValue × Bool)
  | .str s => some (.str s, false)
  | .bool b => some (.str (if b then "True" else "False"), true)
  | .num q => some (.str (py.str_float q), true)
  | .dict _ => none

/-- Fit a value to a `number` predicate: a `bool` is refused. -/
def as_number : ObjectValue → Option (ObjectValue × Bool)
  | .bool _ => none
  | .num q => some (.num q, false)
  | .str s => (py.float_str s).map fun q => (.num q, true)
  | .dict _ => none

/-- Fit a value to a `boolean` predicate: a number is refused. -/
def as_boolean : ObjectValue → Option (ObjectValue × Bool)
  | .bool b => some (.bool b, false)
  | .str s =>
      let word := casefold (py.strip s)
      if word ∈ [ "true", "yes", "y"] then some (.bool true, true)
      else if word ∈ [ "false", "no", "n"] then some (.bool false, true)
      else none
  | .num _ => none
  | .dict _ => none

/-- The value as the declared type, and whether that took a coercion. -/
def fit (value : ObjectValue) : ObjectSpec → Option (ObjectValue × Bool)
  | .coded _ | .entity_ref _ =>
      match value with
      | .str s => some (.str s, false)
      | _ => none
  | .scalar .text => as_text py value
  | .scalar .number => as_number py value
  | .scalar .boolean => as_boolean py casefold value

/-- Move a candidate into its tenant's quarantine namespace. -/
def quarantined (candidate : MemoryCandidate) : MemoryCandidate :=
  { candidate with «namespace» := "quarantine:" ++ candidate.tenant_id }

/-- Decide one candidate's outcome and rewrite it if the outcome says so. -/
def judge (candidate : MemoryCandidate) (pack : Pack) : GatedCandidate :=
  match pack candidate.predicate with
  | none => ⟨quarantined candidate, .QUARANTINED, py.round (4 / 10), "SCHEMA_UNKNOWN_PREDICATE"⟩
  | some spec =>
      match fit py casefold candidate.object spec.object with
      | none => ⟨candidate, .REJECTED, 0, "SCHEMA_TYPE"⟩
      | some (_, false) => ⟨candidate, .PASS, 1, "SCHEMA_OK"⟩
      | some (value, true) =>
          ⟨{ candidate with object := value }, .COERCED, py.round (7 / 10), "SCHEMA_COERCED"⟩

/-- Validate candidates against the tenant ontology. -/
def gate (candidates : List MemoryCandidate) (pack : Pack) : SchemaGateResult :=
  let verdicts := candidates.map fun candidate => judge py casefold candidate pack
  { admitted := verdicts.filter fun v => v.outcome ≠ .QUARANTINED ∧ v.outcome ≠ .REJECTED
    quarantined := verdicts.filter fun v => v.outcome = .QUARANTINED
    rejected := verdicts.filter fun v => v.outcome = .REJECTED }

variable {py casefold} {candidates : List MemoryCandidate} {pack : Pack} {v : GatedCandidate}

/-- CORRECT: an admitted candidate is one that came in, with at most its value rewritten, and its
    predicate is declared. -/
theorem admitted_spec (h : v ∈ (gate py casefold candidates pack).admitted) :
    ∃ c ∈ candidates, ∃ value, v.candidate = { c with object := value } ∧
      (pack v.candidate.predicate).isSome := by
  simp only [gate, List.mem_filter, List.mem_map, decide_eq_true_eq] at h
  obtain ⟨⟨c, hc, rfl⟩, hquarantined, hrejected⟩ := h
  refine ⟨c, hc, ?_⟩
  unfold judge at hquarantined hrejected ⊢
  cases hspec : pack c.predicate with
  | none => simp [hspec] at hquarantined
  | some spec =>
      cases hfit : fit py casefold c.object spec.object with
      | none => simp [hspec, hfit] at hrejected
      | some fitted =>
          obtain ⟨value, coerced⟩ := fitted
          cases coerced with
          | false => exact ⟨c.object, by simp [hfit], by simp [hfit, hspec]⟩
          | true => exact ⟨value, by simp [hfit], by simp [hfit, hspec]⟩

end GuardMem
