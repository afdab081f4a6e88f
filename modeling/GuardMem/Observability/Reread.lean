import GuardMem.Memory.Store
import GuardMem.Pipeline.Scoring

/-! A decision read back from its audit payload: `DecisionRecord.model_validate_json`.

    Every field is read by its key, an unknown key is refused and so is a text or a number the field will
    not hold. CORRECT: what `model_dump` wrote reads back as the record it was (`reread`). -/

namespace GuardMem

def JsonArr.toList : JsonArr → List Json
  | .nil => []
  | .cons x xs => x :: xs.toList

def JsonObj.toList : JsonObj → List (String × Json)
  | .nil => []
  | .cons k v rest => (k, v) :: rest.toList

@[simp] theorem JsonArr.toList_ofList (xs : List Json) : (ofList xs).toList = xs := by
  induction xs with
  | nil => rfl
  | cons x xs ih => simp [ofList, toList, ih]

@[simp] theorem JsonObj.toList_ofList (kvs : List (String × Json)) : (ofList kvs).toList = kvs := by
  induction kvs with
  | nil => rfl
  | cons kv kvs ih => simp [ofList, toList, ih]

/-! ### Fields -/

/-- A required field. -/
def JsonObj.field (kvs : JsonObj) (name : String) : Except Exc Json :=
  match kvs.lookup name with
  | some v => .ok v
  | none => .error (.ValidationError name)

/-- `extra="forbid"`. -/
def JsonObj.only (kvs : JsonObj) (names : List String) : Except Exc Unit :=
  require (∀ k ∈ kvs.toList.map Prod.fst, k ∈ names) (.ValidationError "extra_forbidden")

def read_obj (name : String) : Json → Except Exc JsonObj
  | .obj kvs => .ok kvs
  | _ => .error (.ValidationError name)

def read_str (name : String) : Json → Except Exc String
  | .str s => .ok s
  | _ => .error (.ValidationError name)

def read_float (name : String) : Json → Except Exc ℚ
  | .num q => .ok q
  | _ => .error (.ValidationError name)

/-- `Field(ge=0.0, le=1.0)`. -/
def read_unit (name : String) (v : Json) : Except Exc UnitFloat := do
  unit_field name (← read_float name v)

/-- `Field(ge=-1.0, le=1.0)`. -/
def read_cosine (name : String) (v : Json) : Except Exc Cosine := do
  let x ← read_float name v
  if h : -1 ≤ x ∧ x ≤ 1 then .ok ⟨x, h⟩ else .error (.ValidationError name)

/-- A field over a vocabulary: a member's own text. -/
def read_member {α : Type} (name : String) (members : List α) (value : α → String) :
    Json → Except Exc α
  | .str s =>
      match members.find? fun m => value m == s with
      | some m => .ok m
      | none => .error (.ValidationError name)
  | _ => .error (.ValidationError name)

/-- A field that may be null. -/
def read_nullable {α : Type} (read : Json → Except Exc α) : Json → Except Exc (Option α)
  | .null => .ok none
  | v => do .ok (some (← read v))

def read_strs (name : String) : Json → Except Exc (List String)
  | .arr xs => collect (read_str name) xs.toList
  | _ => .error (.ValidationError name)

/-- `dict[str, float]`. -/
def read_floats (name : String) (v : Json) : Except Exc (List (String × ℚ)) := do
  collect (fun kv : String × Json => do .ok (kv.1, ← read_float name kv.2)) (← read_obj name v).toList

def ConflictKind.members : List ConflictKind :=
  [.NONE, .DUPLICATE, .REFINEMENT, .CONTRADICTION, .CARDINALITY, .TEMPORAL_OVERLAP]
def ImpactLevel.members : List ImpactLevel := [.LOW, .MEDIUM, .HIGH, .CRITICAL]
def Decision.members : List Decision := [.AUTO_WRITE, .HITL_REVIEW, .REJECT, .ESCALATE]
def Hint.members : List Hint := [.merge, .supersede, .coexist, .escalate]

/-! ### The reports -/

def ConflictReport.model_validate_json (v : Json) : Except Exc ConflictReport := do
  let kvs ← read_obj "conflict" v
  kvs.only [ "kind", "incumbent_assertion_id", "entailment", "contradiction", "cosine", "resolution_hint"]
  .ok { kind := ← read_member "kind" ConflictKind.members ConflictKind.value (← kvs.field "kind")
        incumbent_assertion_id := ← read_nullable (read_str "incumbent_assertion_id")
          (← kvs.field "incumbent_assertion_id")
        entailment := ← read_unit "entailment" (← kvs.field "entailment")
        contradiction := ← read_unit "contradiction" (← kvs.field "contradiction")
        cosine := ← read_cosine "cosine" (← kvs.field "cosine")
        resolution_hint := ← read_member "resolution_hint" Hint.members Hint.value
          (← kvs.field "resolution_hint") }

def ConfidenceReport.model_validate_json (v : Json) : Except Exc ConfidenceReport := do
  let kvs ← read_obj "confidence" v
  kvs.only [ "semantic_entropy", "grounding", "schema_fit", "corroboration", "consistency", "confidence",
    "weights_version"]
  .ok { semantic_entropy := ← read_unit "semantic_entropy" (← kvs.field "semantic_entropy")
        grounding := ← read_unit "grounding" (← kvs.field "grounding")
        schema_fit := ← read_unit "schema_fit" (← kvs.field "schema_fit")
        corroboration := ← read_unit "corroboration" (← kvs.field "corroboration")
        consistency := ← read_unit "consistency" (← kvs.field "consistency")
        confidence := ← read_unit "confidence" (← kvs.field "confidence")
        weights_version := ← read_str "weights_version" (← kvs.field "weights_version") }

def RiskVerdict.model_validate_json (v : Json) : Except Exc RiskVerdict := do
  let kvs ← read_obj "risk" v
  kvs.only [ "impact_level", "risk", "features", "obligations"]
  let impact_level ← read_member "impact_level" ImpactLevel.members ImpactLevel.value
    (← kvs.field "impact_level")
  let risk ← read_unit "risk" (← kvs.field "risk")
  let features ← read_floats "features" (← kvs.field "features")
  let obligations ← read_strs "obligations" (← kvs.field "obligations")
  if h : ∀ o ∈ obligations,
      o ∈ [ObligationKind.REQUIRE_REVIEW, .REQUIRE_CORROBORATION, .REDACT_FIELD].map ObligationKind.value
  then .ok ⟨impact_level, risk, features, obligations, h⟩
  else .error (.ValidationError "obligations")

/-- `escalated_from`, which may be missing. -/
def read_escalated_from (kvs : JsonObj) : Except Exc (Option Decision) :=
  match kvs.lookup "escalated_from" with
  | none => .ok none
  | some v => read_nullable (read_member "escalated_from" Decision.members Decision.value) v

/-- Revalidated as JSON, where a text is how an enum is spelled. -/
def DecisionRecord.model_validate_json (v : Json) : Except Exc DecisionRecord := do
  let kvs ← read_obj "record" v
  kvs.only [ "decision", "reason_codes", "confidence", "risk", "conflict", "thresholds_version",
    "policy_version", "escalated_from"]
  .ok { decision := ← read_member "decision" Decision.members Decision.value (← kvs.field "decision")
        reason_codes := ← read_strs "reason_codes" (← kvs.field "reason_codes")
        confidence := ← ConfidenceReport.model_validate_json (← kvs.field "confidence")
        risk := ← RiskVerdict.model_validate_json (← kvs.field "risk")
        conflict := ← ConflictReport.model_validate_json (← kvs.field "conflict")
        thresholds_version := ← read_str "thresholds_version" (← kvs.field "thresholds_version")
        policy_version := ← read_str "policy_version" (← kvs.field "policy_version")
        escalated_from := ← read_escalated_from kvs }

/-! ### What was dumped reads back -/

theorem ok_bind {α β : Type} {a : α} {f : α → Except Exc β} : (Except.ok a >>= f) = f a := rfl

/-- A dump has its own model's keys and no others. -/
theorem JsonObj.only_ofList {kvs : List (String × Json)} {names : List String}
    (h : kvs.map Prod.fst = names) : (ofList kvs).only names = .ok () := by
  simp [only, ← h]

@[simp] theorem read_unit_num (name : String) (u : UnitFloat) : read_unit name (.num u.1) = .ok u :=
  (bind_ok).mpr ⟨u.1, rfl, unit_field_ok.mpr rfl⟩

@[simp] theorem read_cosine_num (name : String) (c : Cosine) : read_cosine name (.num c.1) = .ok c :=
  (bind_ok).mpr ⟨c.1, rfl, dif_pos c.2⟩

@[simp] theorem read_member_kind (name : String) (k : ConflictKind) :
    read_member name ConflictKind.members ConflictKind.value (.str k.value) = .ok k := by
  cases k <;> rfl

@[simp] theorem read_member_impact (name : String) (l : ImpactLevel) :
    read_member name ImpactLevel.members ImpactLevel.value (.str l.value) = .ok l := by
  cases l <;> rfl

@[simp] theorem read_member_decision (name : String) (d : Decision) :
    read_member name Decision.members Decision.value (.str d.value) = .ok d := by
  cases d <;> rfl

@[simp] theorem read_member_hint (name : String) (h : Hint) :
    read_member name Hint.members Hint.value (.str h.value) = .ok h := by
  cases h <;> rfl

theorem collect_map {α β γ : Type} {f : β → Except Exc γ} {g : α → β} {h : α → γ} {xs : List α}
    (hf : ∀ x, f (g x) = .ok (h x)) : collect f (xs.map g) = .ok (xs.map h) := by
  induction xs with
  | nil => rfl
  | cons x xs ih => simp [collect, hf, ih]

@[simp] theorem read_strs_map (name : String) (texts : List String) :
    read_strs name (.arr (.ofList (texts.map .str))) = .ok texts := by
  simpa [read_strs] using
    @collect_map String Json String (read_str name) Json.str id texts fun _ => rfl

@[simp] theorem read_floats_map (name : String) (features : List (String × ℚ)) :
    read_floats name (.obj (.ofList (features.map fun f => (f.1, .num f.2)))) = .ok features := by
  have hread := @collect_map (String × ℚ) (String × Json) (String × ℚ)
    (fun kv => do .ok (kv.1, ← read_float name kv.2)) (fun f => (f.1, .num f.2)) id features fun _ => rfl
  rw [List.map_id] at hread
  exact (bind_ok).mpr ⟨_, rfl, by rw [JsonObj.toList_ofList]; exact hread⟩

theorem ConflictReport.reread (r : ConflictReport) : model_validate_json r.model_dump = .ok r := by
  obtain ⟨kind, incumbent, entailment, contradiction, cosine, hint⟩ := r
  simp only [model_validate_json, model_dump, read_obj, ok_bind]
  rw [JsonObj.only_ofList (by rfl), ok_bind]
  cases incumbent <;>
    simp [-bind_ok, ok_bind, JsonObj.field, JsonObj.ofList, JsonObj.lookup, jsonOption, read_nullable,
      read_str]

theorem ConfidenceReport.reread (r : ConfidenceReport) : model_validate_json r.model_dump = .ok r := by
  simp only [model_validate_json, model_dump, read_obj, ok_bind]
  rw [JsonObj.only_ofList (by rfl), ok_bind]
  simp [-bind_ok, ok_bind, JsonObj.field, JsonObj.ofList, JsonObj.lookup, read_str]

theorem RiskVerdict.reread (r : RiskVerdict) : model_validate_json r.model_dump = .ok r := by
  simp only [model_validate_json, model_dump, read_obj, ok_bind]
  rw [JsonObj.only_ofList (by rfl), ok_bind]
  simp [-bind_ok, ok_bind, JsonObj.field, JsonObj.ofList, JsonObj.lookup]
  exact dif_pos (by simpa using r.obligations_known)

/-- CORRECT: a record reads back from its payload. -/
theorem DecisionRecord.reread (r : DecisionRecord) : model_validate_json r.model_dump = .ok r := by
  obtain ⟨decision, codes, confidence, risk, conflict, thresholds, policy, escalated⟩ := r
  simp only [model_validate_json, model_dump, read_obj, ok_bind]
  rw [JsonObj.only_ofList (by rfl), ok_bind]
  cases escalated <;>
    simp [-bind_ok, ok_bind, JsonObj.field, JsonObj.ofList, JsonObj.lookup, jsonOption, read_nullable,
      read_str, read_escalated_from, ConflictReport.reread, ConfidenceReport.reread, RiskVerdict.reread]

end GuardMem
