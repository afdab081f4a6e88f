import GuardMem.Clinical
import GuardMem.Pipeline.FloatGate

/-! What the schema gate admits, and what the `object_json` column then makes of it.

    `float("nan")` is a float, so the text `nan` is coerced to a number that `json.dumps` writes as `NaN`
    and the column refuses. CORRECT: the three doors part the candidates, rewrite no more than a coerced
    object and a quarantined namespace, and admit what they admitted; every admitted object is of its
    predicate's type, can be stored exactly where no stated number is an infinity or a NaN, and comes back
    equal exactly where each is round from `1e16` up besides (`admitted_stored_iff`). -/

namespace GuardMem

open FloatGate Lib.Json

/-- What a candidate states for a predicate declared as a number, if that is a number. -/
def stated (float : String → Option PyFloat) (ontology : Pack) (c : FloatGate.MemoryCandidate) : Option PyFloat :=
  match ontology c.predicate with
  | some decl =>
      if decl.object = .scalar .number then
        match c.object with
        | .float x => some x
        | .str s => float s
        | _ => none
      else none
  | none => none

variable {py : Python} {float : String → Option PyFloat} {casefold : String → String}
  {candidates : List FloatGate.MemoryCandidate} {candidate : FloatGate.MemoryCandidate} {ontology : Pack}
  {v : FloatGate.GatedCandidate} {x : PyFloat}

/-- A stated number is admitted as the number it is. -/
theorem admitted_of_stated (h : stated float ontology candidate = some x) :
    Admitted (FloatGate.judge py float casefold candidate ontology) ∧
      (FloatGate.judge py float casefold candidate ontology).candidate.object = .float x := by
  unfold stated at h
  split at h
  · next decl hdecl =>
      split_ifs at h with hnumber
      have hfit : ∃ coerced, FloatGate.fit py float casefold candidate.object decl.object =
          some (.float x, coerced) := by
        rw [hnumber]
        split at h
        · next y hy => exact ⟨false, by rw [hy, ← Option.some.inj h]; rfl⟩
        · next s hs => exact ⟨true, by simp [hs, FloatGate.fit, FloatGate.as_number, h]⟩
        · cases h
      obtain ⟨coerced, hfit⟩ := hfit
      have hadmitted := admitted_of_fit hdecl hfit
      obtain ⟨decl', value, coerced', hdecl', hfit', hcandidate⟩ := judge_admitted hadmitted
      obtain rfl := Option.some.inj (hdecl.symm.trans hdecl')
      obtain ⟨rfl, -⟩ := Prod.mk.inj (Option.some.inj (hfit.symm.trans hfit'))
      exact ⟨hadmitted, by rw [hcandidate]⟩
  · cases h

/-- What is admitted is a stated number, a text or a truth value. -/
theorem object_of_admitted (h : Admitted (FloatGate.judge py float casefold candidate ontology)) :
    (∃ x, stated float ontology candidate = some x ∧
      (FloatGate.judge py float casefold candidate ontology).candidate.object = .float x) ∨
    (∃ s, (FloatGate.judge py float casefold candidate ontology).candidate.object = .str s) ∨
    ∃ b, (FloatGate.judge py float casefold candidate ontology).candidate.object = .bool b := by
  obtain ⟨decl, value, coerced, hdecl, hfit, hcandidate⟩ := judge_admitted h
  rw [hcandidate]
  have htyped := fit_inhabits hfit
  rcases hspec : decl.object with (_ | _ | _) | _ | _ <;> rw [hspec] at htyped hfit <;>
    obtain ⟨x, rfl⟩ := htyped
  · exact Or.inr (Or.inl ⟨x, rfl⟩)
  · exact Or.inr (Or.inr ⟨x, rfl⟩)
  · refine Or.inl ⟨x, ?_, rfl⟩
    unfold stated
    rw [hdecl]
    dsimp only
    rw [if_pos hspec]
    rcases hobject : candidate.object with s | y | b | p <;>
      simp only [hobject, FloatGate.fit, FloatGate.as_number, reduceCtorEq, Option.some.injEq, Prod.mk.injEq,
        PyObject.float.injEq, Option.map_eq_some_iff] at hfit
    · obtain ⟨y, hy, rfl, -⟩ := hfit
      exact hy
    · rw [hfit.1]
  · exact Or.inr (Or.inl ⟨x, rfl⟩)
  · exact Or.inr (Or.inl ⟨x, rfl⟩)

/-- A property of texts and truth values holds of all that is admitted where it does of the stated numbers. -/
theorem admitted_iff_stated {P : Value → Prop} (hstr : ∀ s, P (.leaf (.str s)))
    (hbool : ∀ b, P (.leaf (.bool b))) :
    (∀ v ∈ (FloatGate.gate py float casefold candidates ontology).admitted, P v.candidate.object.value) ↔
      ∀ c ∈ candidates, ∀ x, stated float ontology c = some x → P (.leaf (.float x)) := by
  constructor
  · intro hall c hc x hx
    obtain ⟨hadmitted, hobject⟩ := @admitted_of_stated py float casefold c ontology x hx
    have h := hall _ (mem_admitted.mpr ⟨c, hc, rfl, hadmitted⟩)
    rwa [hobject] at h
  · intro hall v hv
    obtain ⟨c, hc, rfl, hadmitted⟩ := mem_admitted.mp hv
    rcases object_of_admitted hadmitted with ⟨x, hx, hobject⟩ | ⟨s, hobject⟩ | ⟨b, hobject⟩
    · rw [hobject]
      exact hall c hc x hx
    · rw [hobject]
      exact hstr s
    · rw [hobject]
      exact hbool b

theorem safe_float : (Scalar.float x).Safe ↔ ∃ y, x = .finite y := by
  cases x <;> simp [Scalar.Safe, Scalar.isOther, Scalar.refused]

variable (py float casefold)

/-- Gating is exact; storing what was admitted is not. -/
theorem admitted_stored_iff (candidates : List FloatGate.MemoryCandidate) (ontology : Pack) :
    let result := FloatGate.gate py float casefold candidates ontology
    (∃ verdicts, List.Forall₂ Rewritten candidates verdicts ∧
      result.admitted = verdicts.filter (fun v => v.outcome = .PASS ∨ v.outcome = .COERCED) ∧
      result.quarantined = verdicts.filter (fun v => v.outcome = .QUARANTINED) ∧
      result.rejected = verdicts.filter (fun v => v.outcome = .REJECTED)) ∧
    FloatGate.gate py float casefold (result.admitted.map fun v => v.candidate) ontology =
      ⟨result.admitted.map fun v => ⟨v.candidate, .PASS, 1, "SCHEMA_OK"⟩, [], []⟩ ∧
    (∀ v ∈ result.admitted, ∃ decl, ontology v.candidate.predicate = some decl ∧
      Inhabits decl.object v.candidate.object) ∧
    ((∀ v ∈ result.admitted, Storable v.candidate.object.value) ↔
      ∀ c ∈ candidates, ∀ x, stated float ontology c = some x → ∃ y, x = .finite y) ∧
    ((∀ v ∈ result.admitted, ReadsBack v.candidate.object.value) ↔
      ∀ c ∈ candidates, ∀ x, stated float ontology c = some x → ∃ y, x = .finite y ∧ ExactRepr y) := by
  intro result
  refine ⟨?_, gate_again, ?_, ?_, ?_⟩
  · refine ⟨candidates.map fun c => FloatGate.judge py float casefold c ontology, ?_, ?_⟩
    · rw [List.forall₂_map_right_iff]
      exact List.forall₂_same.mpr fun c _ => judge_rewritten
    · have hdoors : result = _ := gate_eq
      rw [hdoors]
      exact ⟨rfl, rfl, rfl⟩
  · intro v hv
    obtain ⟨c, -, rfl, hadmitted⟩ := mem_admitted.mp hv
    obtain ⟨decl, value, coerced, hdecl, hfit, hcandidate⟩ := judge_admitted hadmitted
    rw [hcandidate]
    exact ⟨decl, hdecl, fit_inhabits hfit⟩
  · rw [admitted_iff_stated fun s => storable_leaf.mpr ⟨rfl, rfl⟩]
    · simp only [storable_leaf, safe_float]
    · exact fun b => storable_leaf.mpr ⟨rfl, rfl⟩
  · rw [admitted_iff_stated fun s => reads_back_leaf.mpr ⟨⟨rfl, rfl⟩, fun x hx => by cases hx⟩]
    · simp only [reads_back_leaf, safe_float, Scalar.float.injEq]
      refine forall₂_congr fun c _ => forall₂_congr fun x _ => ⟨?_, ?_⟩
      · rintro ⟨⟨y, rfl⟩, hround⟩
        exact ⟨y, rfl, hround y rfl⟩
      · rintro ⟨y, rfl, hround⟩
        exact ⟨⟨y, rfl⟩, fun z hz => PyFloat.finite.inj hz ▸ hround⟩
    · exact fun b => reads_back_leaf.mpr ⟨⟨rfl, rfl⟩, fun x hx => by cases hx⟩

namespace Clinical

/-- The one numeric predicate of the clinical pack. -/
def weight_pack : Pack := fun predicate =>
  if predicate = "weight_kg" then
    some { subject := "Patient", cardinality := .ONE_PER_TIME, impact := .LOW, object := .scalar .number
           pii_class := .SPECIAL_CATEGORY, irreversibility := .PARTIAL
           min_source_tier := .UNVERIFIED_USER }
  else none

def weight (object : PyObject) : FloatGate.MemoryCandidate where
  candidate_id := "2"
  tenant_id := "clinic"
  «namespace» := "patient:1"
  subject := "the patient"
  predicate := "weight_kg"
  object := object
  provenance := (language "trace" "2" "" 0).provenance
  trace_id := "trace"
  interval_coherent := MemoryCandidate.undated

/-- What `float` makes of the text `nan`. -/
def float_nan (s : String) : Option PyFloat := if s = "nan" then some .nan else none

end Clinical

open Clinical in
/-- A weight of `nan` is admitted, and no column takes it. -/
theorem nan_refused : ¬ ∀ v ∈ (FloatGate.gate python float_nan id [weight (.str "nan")] weight_pack).admitted,
    Storable v.candidate.object.value := by
  intro hall
  have hnan := hall ⟨weight (.float .nan), .COERCED, python.round (7 / 10), "SCHEMA_COERCED"⟩ (by
    rw [gate_eq]
    exact List.mem_cons_self)
  have hsafe : (Scalar.float .nan).Safe := storable_leaf.mp hnan
  cases hsafe.2

end GuardMem
