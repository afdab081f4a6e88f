import GuardMem.Schemas.Entity
import GuardMem.Schemas.Verdict
import Mathlib.Data.List.Basic

/-! Layer 2's conflict detection: `dedupe.classify`, `dedupe.most_severe` and `conflict.detect`.

    The judge is outside the program: `detect` takes its reply, one `Judgement` for each incumbent.
    CORRECT for a `ONE` predicate with a single incumbent: the report either supersedes that
    incumbent or carries a hint under which nothing is written (`detect_single`). -/

namespace GuardMem

/-- The judge's three numbers for one incumbent. -/
structure Judgement where
  entail_fwd : UnitFloat
  entail_rev : UnitFloat
  contradiction : UnitFloat
  deriving DecidableEq

/-- One row of the resolution table. -/
structure Resolution where
  kind : ConflictKind
  resolution_hint : Hint
  deriving DecidableEq

namespace Resolution

def DUPLICATE : Resolution := ⟨.DUPLICATE, .merge⟩
def REFINEMENT : Resolution := ⟨.REFINEMENT, .supersede⟩
def CONTRADICTION : Resolution := ⟨.CONTRADICTION, .escalate⟩
def AMBIGUOUS : Resolution := ⟨.NONE, .escalate⟩
def COEXIST : Resolution := ⟨.NONE, .coexist⟩
def CARDINALITY : Resolution := ⟨.CARDINALITY, .supersede⟩
def TEMPORAL_OVERLAP : Resolution := ⟨.TEMPORAL_OVERLAP, .supersede⟩

/-- Severest first. -/
def PRECEDENCE : List Resolution :=
  [CONTRADICTION, AMBIGUOUS, CARDINALITY, TEMPORAL_OVERLAP, DUPLICATE, REFINEMENT, COEXIST]

end Resolution

/-- One assertion a search returned, with its cosine similarity. -/
structure ScoredAssertion where
  assertion : StoredAssertion
  cosine : Cosine
  deriving DecidableEq

/-! The table's five thresholds. A literal is the double nearest to it, so each stands here exactly. -/

/-- `0.95`. -/
def DUPLICATE_COSINE : ℚ := 4278419646001971 / 4503599627370496

/-- `0.80`. -/
def REFINEMENT_COSINE : ℚ := 3602879701896397 / 4503599627370496

/-- `0.85`. -/
def ENTAILED : ℚ := 7656119366529843 / 9007199254740992

/-- `0.65`. -/
def CONTRADICTION_FLOOR : ℚ := 5854679515581645 / 9007199254740992

/-- `0.30`. -/
def AMBIGUOUS_FLOOR : ℚ := 5404319552844595 / 18014398509481984

/-- Read the resolution table for one judged pair. -/
def classify (cosine : ℚ) (j : Judgement) (restates : Bool) : Resolution :=
  if CONTRADICTION_FLOOR ≤ j.contradiction.1 then .CONTRADICTION
  else if AMBIGUOUS_FLOOR ≤ j.contradiction.1 then .AMBIGUOUS
  else if restates then .DUPLICATE
  else if DUPLICATE_COSINE ≤ cosine ∧ ENTAILED ≤ j.entail_fwd.1 ∧ ENTAILED ≤ j.entail_rev.1 then .DUPLICATE
  else if REFINEMENT_COSINE ≤ cosine ∧ ENTAILED ≤ j.entail_rev.1 ∧ j.entail_fwd.1 < ENTAILED then .REFINEMENT
  else .COEXIST

/-- The rank of a resolution: `_PRECEDENCE.index`. -/
def severity (r : Resolution) : ℕ := Resolution.PRECEDENCE.idxOf r

/-- The severest pair, the earliest among equals. The empty list is the caller's bug. -/
def most_severe {α : Type*} : List (Resolution × α) → Option (Resolution × α)
  | [] => none
  | x :: xs =>
      match most_severe xs with
      | none => some x
      | some y => if severity x.1 ≤ severity y.1 then some x else some y

/-- Do the two validity intervals intersect? Half-open, an absent bound being infinite. -/
def overlaps (candidate : MemoryCandidate) (incumbent : StoredAssertion) : Bool :=
  let startsAfter : Bool := match candidate.valid_to with
    | some t => t ≤ incumbent.valid_from
    | none => false
  let endsBefore : Bool := match incumbent.valid_to, candidate.valid_from with
    | some t, some f => t ≤ f
    | _, _ => false
  !startsAfter && !endsBefore

/-- The nearest incumbent whose value differs. -/
def live_incumbent (incumbents : List ScoredAssertion) (object : ObjectValue) :
    Option ScoredAssertion :=
  incumbents.find? fun hit => !hit.assertion.object.pyEq object

/-- The nearest incumbent with a different value over an intersecting interval. -/
def first_overlap (candidate : MemoryCandidate) (incumbents : List ScoredAssertion) :
    Option ScoredAssertion :=
  incumbents.find? fun hit =>
    !hit.assertion.object.pyEq candidate.object && overlaps candidate hit.assertion

/-- Does this incumbent already assert the very same value? -/
def restates (candidate : MemoryCandidate) (incumbent : StoredAssertion) : Bool :=
  incumbent.object.pyEq candidate.object && overlaps candidate incumbent

/-- The report for a candidate with no incumbents at all. -/
def no_conflict : ConflictReport where
  kind := .NONE
  incumbent_assertion_id := none
  entailment := UnitFloat.zero
  contradiction := UnitFloat.zero
  cosine := Cosine.zero
  resolution_hint := Resolution.COEXIST.resolution_hint

/-- The report for one incumbent and the row it matched. -/
def report (resolution : Resolution) (hit : ScoredAssertion) (judgement : Option Judgement) :
    ConflictReport where
  kind := resolution.kind
  incumbent_assertion_id := some hit.assertion.assertion_id
  entailment := match judgement with
    | some j => j.entail_fwd
    | none => UnitFloat.zero
  contradiction := match judgement with
    | some j => j.contradiction
    | none => UnitFloat.zero
  cosine := hit.cosine
  resolution_hint := resolution.resolution_hint

/-- Classify every pair and report the severest. `zip(..., strict=True)` refuses a short reply. -/
def adjudicate (candidate : MemoryCandidate) (incumbents : List ScoredAssertion)
    (judgements : List Judgement) : Except Exc ConflictReport :=
  if incumbents.length ≠ judgements.length then
    .error (.ValueError "zip() arguments have different lengths")
  else
    let pairs := (incumbents.zip judgements).map fun p =>
      (classify p.1.cosine.1 p.2 (restates candidate p.1.assertion), p)
    match most_severe pairs with
    | none => .error (.ValueError ("most_severe needs at least one resolution; a candidate with no " ++
        "incumbents is answered before the table is consulted"))
    | some (resolution, hit, judgement) => .ok (report resolution hit (some judgement))

/-- Compare a candidate against its incumbents, nearest first. -/
def detect (candidate : MemoryCandidate) (incumbents : List ScoredAssertion) (spec : PredicateSpec)
    (judgements : List Judgement) : Except Exc ConflictReport :=
  if incumbents = [] then .ok no_conflict
  else
    match spec.cardinality, live_incumbent incumbents candidate.object,
        first_overlap candidate incumbents with
    | .ONE, some hit, _ => .ok (report .CARDINALITY hit none)
    | .ONE_PER_TIME, _, some overlapping => .ok (report .TEMPORAL_OVERLAP overlapping none)
    | _, _, _ => adjudicate candidate incumbents judgements

/-! ### What a report can say -/

theorem most_severe_mem {α : Type*} : ∀ {xs : List (Resolution × α)} {x : Resolution × α},
    most_severe xs = some x → x ∈ xs
  | [], x, h => by simp [most_severe] at h
  | y :: ys, x, h => by
      rw [most_severe] at h
      split at h
      · exact List.mem_cons.mpr (Or.inl (Option.some.inj h).symm)
      · rename_i z hz
        split at h
        · exact List.mem_cons.mpr (Or.inl (Option.some.inj h).symm)
        · obtain rfl := Option.some.inj h
          exact List.mem_cons_of_mem _ (most_severe_mem hz)

/-- A restated value is never written: it is merged, or it escalates. -/
theorem classify_restates (cosine : ℚ) (j : Judgement) :
    (classify cosine j true).resolution_hint = .merge ∨
      (classify cosine j true).resolution_hint = .escalate := by
  unfold classify
  split
  · exact Or.inr rfl
  · split
    · exact Or.inr rfl
    · exact Or.inl rfl

/-- A report that names an incumbent names one that was compared against. -/
theorem detect_incumbent {candidate : MemoryCandidate} {incumbents : List ScoredAssertion}
    {spec : PredicateSpec} {js : List Judgement} {r : ConflictReport} {aid : AssertionId}
    (h : detect candidate incumbents spec js = .ok r) (hr : r.incumbent_assertion_id = some aid) :
    ∃ hit ∈ incumbents, hit.assertion.assertion_id = aid := by
  have named : ∀ {res hit j}, report res hit j = r → hit ∈ incumbents →
      ∃ hit ∈ incumbents, hit.assertion.assertion_id = aid := by
    rintro res hit j rfl hmem
    exact ⟨hit, hmem, Option.some.inj hr⟩
  unfold detect at h
  split at h
  · obtain rfl := Except.ok.inj h
    simp [no_conflict] at hr
  · split at h
    · next hit _ _ hhit =>
        exact named (Except.ok.inj h) (List.mem_of_find?_eq_some hhit)
    · next hit _ _ hhit =>
        exact named (Except.ok.inj h) (List.mem_of_find?_eq_some hhit)
    · unfold adjudicate at h
      split at h
      · exact absurd h (by simp)
      · dsimp only at h
        split at h
        · exact absurd h (by simp)
        · next _ hit j hms =>
            have hmem := most_severe_mem hms
            simp only [List.mem_map, Prod.mk.injEq] at hmem
            obtain ⟨⟨hit', j'⟩, hzip, -, heq⟩ := hmem
            obtain ⟨rfl, rfl⟩ := Prod.mk.inj heq
            exact named (Except.ok.inj h) (List.of_mem_zip hzip).1

/-- The one incumbent of a `ONE` predicate holds another value: it is superseded. -/
theorem detect_differs {candidate : MemoryCandidate} {hit : ScoredAssertion} {spec : PredicateSpec}
    {js : List Judgement} {r : ConflictReport} (hone : spec.cardinality = .ONE)
    (hobj : hit.assertion.object.pyEq candidate.object = false)
    (h : detect candidate [hit] spec js = .ok r) :
    r.resolution_hint = .supersede ∧ r.incumbent_assertion_id = some hit.assertion.assertion_id := by
  have hl : live_incumbent [hit] candidate.object = some hit := by
    simp [live_incumbent, hobj]
  simp only [detect, hone, hl, List.cons_ne_nil, if_false, Except.ok.injEq] at h
  subst h
  exact ⟨rfl, rfl⟩

/-- It holds the value of an undated candidate already: they merge, or the candidate escalates. -/
theorem detect_restates {candidate : MemoryCandidate} {hit : ScoredAssertion} {spec : PredicateSpec}
    {js : List Judgement} {r : ConflictReport} (hone : spec.cardinality = .ONE)
    (hfrom : candidate.valid_from = none) (hto : candidate.valid_to = none)
    (hobj : hit.assertion.object.pyEq candidate.object = true)
    (h : detect candidate [hit] spec js = .ok r) :
    r.resolution_hint = .merge ∨ r.resolution_hint = .escalate := by
  have hl : live_incumbent [hit] candidate.object = none := by
    simp [live_incumbent, hobj]
  have hov : overlaps candidate hit.assertion = true := by simp [overlaps, hfrom, hto]
  have hrs : restates candidate hit.assertion = true := by simp [restates, hobj, hov]
  simp only [detect, hone, hl, List.cons_ne_nil, if_false, adjudicate] at h
  split at h
  · exact absurd h (by simp)
  · split at h
    · exact absurd h (by simp)
    · next res hit' j hms =>
        have hmem := most_severe_mem hms
        simp only [List.mem_map, Prod.mk.injEq] at hmem
        obtain ⟨⟨hit'', j'⟩, hzip, hres, heq⟩ := hmem
        obtain rfl : hit'' = hit := List.mem_singleton.mp (List.of_mem_zip hzip).1
        obtain rfl := Except.ok.inj h
        rw [hrs] at hres
        rw [report, ← hres]
        exact classify_restates _ _

/-- CORRECT: with one incumbent under a `ONE` predicate and an undated candidate, the report
    supersedes it when the values differ and merges or escalates when they agree. -/
theorem detect_single {candidate : MemoryCandidate} {hit : ScoredAssertion} {spec : PredicateSpec}
    {js : List Judgement} {r : ConflictReport} (hone : spec.cardinality = .ONE)
    (hfrom : candidate.valid_from = none) (hto : candidate.valid_to = none)
    (h : detect candidate [hit] spec js = .ok r) :
    (r.resolution_hint = .supersede ∧ r.incumbent_assertion_id = some hit.assertion.assertion_id) ∨
      r.resolution_hint = .merge ∨ r.resolution_hint = .escalate := by
  cases hobj : hit.assertion.object.pyEq candidate.object with
  | false => exact Or.inl (detect_differs hone hobj h)
  | true => exact Or.inr (detect_restates hone hfrom hto hobj h)

end GuardMem
