import GuardMem.Memory.Column
import GuardMem.Pipeline.SchemaGate

/-! `schema_gate.gate` over every float there is: an infinity or a NaN is an object like any other.

    CORRECT: on the objects both hold it does what the gate over numbers does (`outcome_stands`), each
    door takes its verdicts in input order (`gate_eq`), only a coerced object and a quarantined namespace
    are rewritten (`judge_rewritten`), and what was fitted to a type fits it as it is (`fit_again`). -/

namespace GuardMem.FloatGate

/-- `str(x)` of a float. -/
def str : PyFloat → String
  | .finite x => String.ofList x.repr.text
  | .inf neg => if neg then "-inf" else "inf"
  | .nan => "nan"

/-- One proposed fact. -/
structure MemoryCandidate where
  candidate_id : CandidateId
  tenant_id : TenantId
  «namespace» : Namespace
  subject : String
  predicate : String
  object : PyObject
  valid_from : Option Time := none
  valid_to : Option Time := none
  provenance : Provenance
  trace_id : TraceId
  interval_coherent : ∀ f ∈ valid_from, ∀ t ∈ valid_to, f ≤ t

structure GatedCandidate where
  candidate : MemoryCandidate
  outcome : GateOutcome
  schema_fit : ℚ
  reason_code : String

structure SchemaGateResult where
  admitted : List GatedCandidate
  quarantined : List GatedCandidate
  rejected : List GatedCandidate

/-! ### The gate -/

section

variable (py : Python) (float : String → Option PyFloat) (casefold : String → String)

def as_text : PyObject → Option (PyObject × Bool)
  | .str s => some (.str s, false)
  | .bool b => some (.str (if b then "True" else "False"), true)
  | .float x => some (.str (str x), true)
  | .dict _ => none

/-- `float` is `float(text)`, `none` where that is a `ValueError`. -/
def as_number : PyObject → Option (PyObject × Bool)
  | .bool _ => none
  | .float x => some (.float x, false)
  | .str s => (float s).map fun x => (.float x, true)
  | .dict _ => none

def as_boolean : PyObject → Option (PyObject × Bool)
  | .bool b => some (.bool b, false)
  | .str s =>
      let word := casefold (py.strip s)
      if word ∈ [ "true", "yes", "y"] then some (.bool true, true)
      else if word ∈ [ "false", "no", "n"] then some (.bool false, true)
      else none
  | .float _ => none
  | .dict _ => none

def fit (value : PyObject) : ObjectSpec → Option (PyObject × Bool)
  | .coded _ | .entity_ref _ =>
      match value with
      | .str s => some (.str s, false)
      | _ => none
  | .scalar .text => as_text value
  | .scalar .number => as_number float value
  | .scalar .boolean => as_boolean py casefold value

def quarantined (candidate : MemoryCandidate) : MemoryCandidate :=
  { candidate with «namespace» := "quarantine:" ++ candidate.tenant_id }

def judge (candidate : MemoryCandidate) (ontology : Pack) : GatedCandidate :=
  match ontology candidate.predicate with
  | none => ⟨quarantined candidate, .QUARANTINED, py.round (4 / 10), "SCHEMA_UNKNOWN_PREDICATE"⟩
  | some spec =>
      match fit py float casefold candidate.object spec.object with
      | none => ⟨candidate, .REJECTED, 0, "SCHEMA_TYPE"⟩
      | some (_, false) => ⟨candidate, .PASS, 1, "SCHEMA_OK"⟩
      | some (value, true) =>
          ⟨{ candidate with object := value }, .COERCED, py.round (7 / 10), "SCHEMA_COERCED"⟩

/-- Put a verdict behind its door. -/
def SchemaGateResult.append (result : SchemaGateResult) (verdict : GatedCandidate) : SchemaGateResult :=
  match verdict.outcome with
  | .QUARANTINED => { result with quarantined := result.quarantined ++ [verdict] }
  | .REJECTED => { result with rejected := result.rejected ++ [verdict] }
  | .PASS | .COERCED => { result with admitted := result.admitted ++ [verdict] }

def gate (candidates : List MemoryCandidate) (ontology : Pack) : SchemaGateResult :=
  candidates.foldl (fun result candidate => result.append (judge py float casefold candidate ontology))
    ⟨[], [], []⟩

end

variable {py : Python} {float : String → Option PyFloat} {casefold : String → String}
  {candidates : List MemoryCandidate} {candidate : MemoryCandidate} {ontology : Pack} {v : GatedCandidate}
  {o value : PyObject} {spec : ObjectSpec} {coerced : Bool}

/-! ### One value -/

/-- The value is of the declared type. -/
def Inhabits : ObjectSpec → PyObject → Prop
  | .coded _, o | .entity_ref _, o | .scalar .text, o => ∃ s, o = .str s
  | .scalar .number, o => ∃ x, o = .float x
  | .scalar .boolean, o => ∃ b, o = .bool b

theorem fit_inhabits (h : fit py float casefold o spec = some (value, coerced)) : Inhabits spec value := by
  rcases spec with (_ | _ | _) | _ | _ <;> cases o <;>
    simp only [fit, as_text, as_number, as_boolean, Option.some.injEq, Prod.mk.injEq, reduceCtorEq,
      Option.map_eq_some_iff] at h
  all_goals first
    | exact ⟨_, h.1.symm⟩
    | (obtain ⟨x, -, hx, -⟩ := h; exact ⟨x, hx.symm⟩)
    | (split_ifs at h <;> obtain ⟨rfl, rfl⟩ := Prod.mk.inj (Option.some.inj h) <;> exact ⟨_, rfl⟩)

/-- A value of the declared type fits it as it is. -/
theorem fit_of_inhabits (h : Inhabits spec o) : fit py float casefold o spec = some (o, false) := by
  rcases spec with (_ | _ | _) | _ | _ <;> obtain ⟨x, rfl⟩ := h <;> rfl

theorem fit_again (h : fit py float casefold o spec = some (value, coerced)) :
    fit py float casefold value spec = some (value, false) := fit_of_inhabits (fit_inhabits h)

/-- What is fitted without coercion is left alone. -/
theorem fit_uncoerced (h : fit py float casefold o spec = some (value, false)) : value = o := by
  rcases spec with (_ | _ | _) | _ | _ <;> cases o <;>
    simp only [fit, as_text, as_number, as_boolean, Option.some.injEq, Prod.mk.injEq, reduceCtorEq,
      Option.map_eq_some_iff, and_true, and_false, exists_false] at h
  all_goals first
    | exact h.symm
    | (split_ifs at h <;> cases h)

/-! ### One candidate -/

/-- What the gate may make of a candidate: only a coerced object and a quarantined namespace differ. -/
inductive Rewritten : MemoryCandidate → GatedCandidate → Prop where
  | PASS (c schema_fit reason_code) : Rewritten c ⟨c, .PASS, schema_fit, reason_code⟩
  | COERCED (c object schema_fit reason_code) :
      Rewritten c ⟨{ c with object := object }, .COERCED, schema_fit, reason_code⟩
  | QUARANTINED (c schema_fit reason_code) : Rewritten c
      ⟨{ c with «namespace» := "quarantine:" ++ c.tenant_id }, .QUARANTINED, schema_fit, reason_code⟩
  | REJECTED (c schema_fit reason_code) : Rewritten c ⟨c, .REJECTED, schema_fit, reason_code⟩

theorem judge_rewritten : Rewritten candidate (judge py float casefold candidate ontology) := by
  unfold judge
  cases ontology candidate.predicate with
  | none => exact .QUARANTINED _ _ _
  | some spec =>
      dsimp only
      rcases fit py float casefold candidate.object spec.object with _ | ⟨value, _ | _⟩
      · exact .REJECTED _ _ _
      · exact .PASS _ _ _
      · exact .COERCED _ _ _ _

def Admitted (v : GatedCandidate) : Prop := v.outcome = .PASS ∨ v.outcome = .COERCED

instance (v : GatedCandidate) : Decidable (Admitted v) := inferInstanceAs (Decidable (_ ∨ _))

/-- An admitted candidate is of a declared predicate, and goes on with the value fitted to it. -/
theorem judge_admitted (h : Admitted (judge py float casefold candidate ontology)) :
    ∃ decl value coerced, ontology candidate.predicate = some decl ∧
      fit py float casefold candidate.object decl.object = some (value, coerced) ∧
      (judge py float casefold candidate ontology).candidate = { candidate with object := value } := by
  unfold judge Admitted at h
  unfold judge
  cases hdecl : ontology candidate.predicate with
  | none => simp [hdecl] at h
  | some decl =>
      rcases hfit : fit py float casefold candidate.object decl.object with _ | ⟨value, _ | _⟩
      · simp [hdecl, hfit] at h
      · refine ⟨decl, value, false, rfl, hfit, ?_⟩
        simp [hfit, fit_uncoerced hfit]
      · exact ⟨decl, value, true, rfl, hfit, by simp [hfit]⟩

theorem admitted_of_fit {decl : PredicateDecl} (hdecl : ontology candidate.predicate = some decl)
    (hfit : fit py float casefold candidate.object decl.object = some (value, coerced)) :
    Admitted (judge py float casefold candidate ontology) := by
  cases coerced <;> simp [judge, hdecl, hfit, Admitted]

/-- Judged again, an admitted candidate passes as it is. -/
theorem judge_again (h : Admitted (judge py float casefold candidate ontology)) :
    let v := judge py float casefold candidate ontology
    judge py float casefold v.candidate ontology = ⟨v.candidate, .PASS, 1, "SCHEMA_OK"⟩ := by
  obtain ⟨decl, value, coerced, hdecl, hfit, hcandidate⟩ := judge_admitted h
  dsimp only
  rw [hcandidate]
  simp [judge, hdecl, fit_again hfit]

/-! ### Every candidate -/

/-- Each door has its verdicts, in input order. -/
theorem gate_eq : gate py float casefold candidates ontology =
    let verdicts := candidates.map fun c => judge py float casefold c ontology
    ⟨verdicts.filter Admitted, verdicts.filter fun v => v.outcome = .QUARANTINED,
      verdicts.filter fun v => v.outcome = .REJECTED⟩ := by
  have hrun : ∀ (candidates : List MemoryCandidate) (result : SchemaGateResult),
      candidates.foldl (fun result c => result.append (judge py float casefold c ontology)) result =
        let verdicts := candidates.map fun c => judge py float casefold c ontology
        ⟨result.admitted ++ verdicts.filter Admitted,
          result.quarantined ++ verdicts.filter fun v => v.outcome = .QUARANTINED,
          result.rejected ++ verdicts.filter fun v => v.outcome = .REJECTED⟩ := by
    intro candidates
    induction candidates with
    | nil => simp
    | cons c cs ih =>
        intro result
        rw [List.foldl_cons, ih, List.map_cons]
        rcases houtcome : (judge py float casefold c ontology).outcome <;>
          simp [SchemaGateResult.append, houtcome, Admitted]
  simpa [gate] using hrun candidates ⟨[], [], []⟩

theorem mem_admitted : v ∈ (gate py float casefold candidates ontology).admitted ↔
    ∃ c ∈ candidates, judge py float casefold c ontology = v ∧ Admitted v := by
  rw [gate_eq]
  simp only [List.mem_filter, List.mem_map, decide_eq_true_eq]
  exact ⟨fun ⟨⟨c, hc, hv⟩, h⟩ => ⟨c, hc, hv, h⟩, fun ⟨c, hc, hv, h⟩ => ⟨⟨c, hc, hv⟩, h⟩⟩

/-- Gated again, what was admitted passes as it is. -/
theorem gate_again : let result := gate py float casefold candidates ontology
    gate py float casefold (result.admitted.map GatedCandidate.candidate) ontology =
      ⟨result.admitted.map fun v => ⟨v.candidate, .PASS, 1, "SCHEMA_OK"⟩, [], []⟩ := by
  intro result
  have hpass : (result.admitted.map GatedCandidate.candidate).map
      (fun c => judge py float casefold c ontology) =
        result.admitted.map fun v => ⟨v.candidate, .PASS, 1, "SCHEMA_OK"⟩ := by
    rw [List.map_map]
    refine List.map_congr_left fun v hv => ?_
    obtain ⟨c, -, rfl, hadmitted⟩ := mem_admitted.mp hv
    exact judge_again hadmitted
  rw [gate_eq, hpass]
  simp [List.filter_map, Function.comp_def, Admitted]

/-! ### The gate over numbers -/

/-- The two are one object. The gate does not look into a dict. -/
inductive Stands : PyObject → ObjectValue → Prop where
  | str (s : String) : Stands (.str s) (.str s)
  | float (x : Lib.Binary64) : Stands (.float (.finite x)) (.num (signed x))
  | bool (b : Bool) : Stands (.bool b) (.bool b)
  | dict (p : Payload) (kvs : JsonObj) : Stands (.dict p) (.dict kvs)

theorem fit_stands {o' : ObjectValue} (hobject : Stands o o')
    (hfloat : ∀ s, o' = .str s → (float s).isSome = (py.float_str s).isSome) :
    (fit py float casefold o spec).map Prod.snd = (GuardMem.fit py casefold o' spec).map Prod.snd := by
  cases hobject with
  | str s =>
      have hs := hfloat s rfl
      rcases spec with (_ | _ | _) | _ | _
      · rfl
      · simp only [fit, as_boolean, GuardMem.fit, GuardMem.as_boolean]
        split_ifs <;> rfl
      · simp only [fit, as_number, GuardMem.fit, GuardMem.as_number, Option.map_map]
        cases hl : float s <;> cases hr : py.float_str s <;> simp_all
      · rfl
      · rfl
  | float x => rcases spec with (_ | _ | _) | _ | _ <;> rfl
  | bool b => rcases spec with (_ | _ | _) | _ | _ <;> rfl
  | dict p kvs => rcases spec with (_ | _ | _) | _ | _ <;> rfl

/-- CORRECT: on an object both can hold, and a text that is no infinity or NaN, the doors are the same. -/
theorem outcome_stands {c : GuardMem.MemoryCandidate} (hpredicate : candidate.predicate = c.predicate)
    (hobject : Stands candidate.object c.object)
    (hfloat : ∀ s, c.object = .str s → (float s).isSome = (py.float_str s).isSome) :
    (judge py float casefold candidate ontology).outcome =
      (GuardMem.judge py casefold c ontology).outcome := by
  rw [judge, GuardMem.judge, hpredicate]
  cases ontology c.predicate with
  | none => rfl
  | some decl =>
      have hfit := @fit_stands py float casefold _ decl.object _ hobject hfloat
      dsimp only
      generalize fit py float casefold candidate.object decl.object = left at hfit ⊢
      generalize GuardMem.fit py casefold c.object decl.object = right at hfit ⊢
      rcases left with _ | ⟨value, _ | _⟩ <;> rcases right with _ | ⟨value', _ | _⟩ <;> simp_all

end GuardMem.FloatGate
