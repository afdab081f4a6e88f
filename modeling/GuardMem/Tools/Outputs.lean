import GuardMem.Governance
import GuardMem.Lib.SchemaRules
import GuardMem.Tools.Search

/-! What the tools promise to return: `tools/outputs.py`, and the objects the handlers return.

    CORRECT: a search's answer, an entity's and a proposal's each fit the schema published for it
    (`admits_search`, `admits_get_entity`, `admits_propose`). -/

namespace GuardMem.Tools

open Lib.JsonSchema

abbrev Value := Lib.JsonSchema.Value

/-! ### The published schemas -/

def text (s : String) : Value := .leaf (.str s)

/-- `{"type": name}`. -/
def of_type (name : String) : Value := .obj [("type", text name)]

def date_time : Value := .obj [("type", text "string"), ("format", text "date-time")]

def nullable_date_time : Value :=
  .obj [("type", .arr (["string", "null"].map text)), ("format", text "date-time")]

def unit_number : Value :=
  .obj [("type", text "number"), ("minimum", .leaf (.int 0)), ("maximum", .leaf (.int 1))]

/-- `{"type": "integer", "minimum": least}`. -/
def integer_from (least : ℤ) : Value := .obj [("type", text "integer"), ("minimum", .leaf (.int least))]

def SPAN : Value :=
  .obj [("type", text "array"), ("items", integer_from 0), ("minItems", .leaf (.int 2)),
    ("maxItems", .leaf (.int 2))]

def CITATION : Value :=
  record ["source_hash", "span", "tier", "verbatim"]
    [("source_hash", of_type "string"), ("span", SPAN), ("tier", of_type "string"),
      ("verbatim", of_type "string")]

/-- One believed assertion, as a search renders it. -/
def ASSERTION : Value :=
  record ["assertion_id", "subject", "predicate", "object", "confidence", "valid_from", "valid_to",
      "corroboration", "provenance"]
    [("assertion_id", of_type "string"), ("subject", of_type "string"), ("predicate", of_type "string"),
      ("object", .obj []), ("confidence", unit_number), ("valid_from", date_time),
      ("valid_to", nullable_date_time), ("corroboration", integer_from 1),
      ("provenance", .obj [("type", text "array"), ("minItems", .leaf (.int 1)), ("items", CITATION)])]

/-- What a search reports as retired. -/
def EXCLUDED : Value :=
  record ["assertion_id", "predicate", "object", "reason", "at"]
    [("assertion_id", of_type "string"), ("predicate", of_type "string"), ("object", .obj []),
      ("reason", of_type "string"), ("at", nullable_date_time)]

def SEARCH_OUTPUT : Value :=
  record ["assertions", "excluded", "tokens_used", "trace_id"]
    [("assertions", array ASSERTION), ("excluded", array EXCLUDED), ("tokens_used", integer_from 0),
      ("trace_id", of_type "string")]

/-- One relationship of the graph. It carries no provenance. -/
def EDGE : Value :=
  record ["assertion_id", "subject", "predicate", "object", "confidence", "valid_from", "valid_to"]
    [("assertion_id", of_type "string"), ("subject", of_type "string"), ("predicate", of_type "string"),
      ("object", .obj []), ("confidence", unit_number), ("valid_from", date_time),
      ("valid_to", nullable_date_time)]

def GET_ENTITY_OUTPUT : Value :=
  record ["entity_id", "namespace", "as_of", "assertions", "neighbors", "graph_backed"]
    [("entity_id", of_type "string"), ("namespace", of_type "string"), ("as_of", nullable_date_time),
      ("assertions", .obj [("type", text "object"), ("additionalProperties", of_type "array")]),
      ("neighbors", array EDGE), ("graph_backed", of_type "boolean")]

/-- One governed candidate. Whether it became a row is told by which of the last two is there. -/
def CANDIDATE : Value :=
  record ["candidate_id", "predicate", "object", "decision", "confidence", "risk", "reason_codes"]
    [("candidate_id", of_type "string"), ("predicate", of_type "string"), ("object", .obj []),
      ("decision", .obj [("enum", .arr (["auto_write", "hitl_review", "reject", "escalate"].map text))]),
      ("confidence", unit_number), ("risk", unit_number), ("reason_codes", array (of_type "string")),
      ("assertion_id", of_type "string"), ("not_applied", of_type "string")]

def FAILED : Value :=
  record ["candidate_id", "code"] [("candidate_id", of_type "string"), ("code", of_type "string")]

def PROPOSE_OUTPUT : Value :=
  record ["trace_id", "status", "candidates", "dropped_noise", "quarantined", "applied", "failed"]
    [("trace_id", of_type "string"), ("status", of_type "string"), ("candidates", array CANDIDATE),
      ("dropped_noise", integer_from 0), ("quarantined", integer_from 0), ("applied", of_type "boolean"),
      ("failed", array FAILED)]

/-- Tool name to output schema. `memory.commit` has none. -/
def OUTPUT_SCHEMAS : List (String × Value) :=
  [("memory.search", SEARCH_OUTPUT), ("memory.propose", PROPOSE_OUTPUT),
    ("memory.get_entity", GET_ENTITY_OUTPUT)]

/-! ### The objects -/

mutual
/-- A JSON value as a client holds it. -/
def json_value : Json → Value
  | .null => .leaf .null
  | .bool b => .leaf (.bool b)
  | .num q => .leaf (.real q)
  | .str s => .leaf (.str s)
  | .arr xs => .arr (arr_values xs)
  | .obj kvs => .obj (obj_values kvs)

def arr_values : JsonArr → List Value
  | .nil => []
  | .cons x xs => json_value x :: arr_values xs

def obj_values : JsonObj → Entries
  | .nil => []
  | .cons k v kvs => (k, json_value v) :: obj_values kvs
end

def nullable : Option String → Value
  | none => .leaf .null
  | some s => text s

def natural (n : ℕ) : Value := .leaf (.int n)

def unit_value (x : UnitFloat) : Value := .leaf (.real x.1)

def citation_payload (c : CitationView) : Value :=
  .obj [("source_hash", text c.source_hash), ("span", .arr [natural c.span.1, natural c.span.2]),
    ("tier", text c.tier), ("verbatim", text c.verbatim)]

def assertion_payload (a : AssertionView) : Value :=
  .obj [("assertion_id", text a.assertion_id), ("subject", text a.subject), ("predicate", text a.predicate),
    ("object", json_value a.object.toJson), ("confidence", unit_value a.confidence),
    ("valid_from", text a.valid_from), ("valid_to", nullable a.valid_to),
    ("corroboration", natural a.corroboration), ("provenance", .arr (a.provenance.map citation_payload))]

def excluded_payload (a : ExcludedView) : Value :=
  .obj [("assertion_id", text a.assertion_id), ("predicate", text a.predicate),
    ("object", json_value a.object.toJson), ("reason", text a.reason), ("at", nullable a.«at»)]

def search_payload (r : SearchResponse) : Value :=
  .obj [("assertions", .arr (r.assertions.map assertion_payload)),
    ("excluded", .arr (r.excluded.map excluded_payload)), ("tokens_used", natural r.tokens_used),
    ("trace_id", text r.trace_id)]

def edge_payload (e : EdgeView) : Value :=
  .obj [("assertion_id", text e.assertion_id), ("subject", text e.subject), ("predicate", text e.predicate),
    ("object", json_value e.object.toJson), ("confidence", unit_value e.confidence),
    ("valid_from", text e.valid_from), ("valid_to", nullable e.valid_to)]

def get_entity_payload (r : EntityResponse) : Value :=
  .obj [("entity_id", text r.entity_id), ("namespace", text r.namespace), ("as_of", nullable r.as_of),
    ("assertions", .obj (r.assertions.map fun group => (group.1, .arr (group.2.map assertion_payload)))),
    ("neighbors", .arr (r.neighbors.map edge_payload)), ("graph_backed", .leaf (.bool r.graph_backed))]

/-- One entry of a proposal's `candidates`. A row that was written and a reason that none was exclude each
    other. -/
structure CandidateEntry where
  candidate_id : CandidateId
  predicate : String
  object : ObjectValue
  decision : Decision
  confidence : UnitFloat
  risk : UnitFloat
  reason_codes : List String
  assertion_id : Option AssertionId
  not_applied : Option String
  exclusive : assertion_id = none ∨ not_applied = none

/-- What a proposal is answered with. -/
structure ProposeResponse where
  trace_id : TraceId
  status : String
  candidates : List CandidateEntry
  dropped_noise : ℕ
  quarantined : ℕ
  applied : Bool
  failed : List (CandidateId × String)

/-- A key that is there only where it has something to say. -/
def optional_key (key : String) (value : Option String) : Entries :=
  (value.map fun given => (key, text given)).toList

def candidate_payload (c : CandidateEntry) : Value :=
  .obj ([("candidate_id", text c.candidate_id), ("predicate", text c.predicate),
    ("object", json_value c.object.toJson), ("decision", text c.decision.value),
    ("confidence", unit_value c.confidence), ("risk", unit_value c.risk),
    ("reason_codes", .arr (c.reason_codes.map text))] ++
      (optional_key "assertion_id" c.assertion_id ++ optional_key "not_applied" c.not_applied))

def failed_payload (f : CandidateId × String) : Value :=
  .obj [("candidate_id", text f.1), ("code", text f.2)]

def propose_payload (r : ProposeResponse) : Value :=
  .obj [("trace_id", text r.trace_id), ("status", text r.status),
    ("candidates", .arr (r.candidates.map candidate_payload)), ("dropped_noise", natural r.dropped_noise),
    ("quarantined", natural r.quarantined), ("applied", .leaf (.bool r.applied)),
    ("failed", .arr (r.failed.map failed_payload))]

/-! ### Every object fits its schema -/

variable {document : Value}

theorem admits_string {s : String} : Admits document (of_type "string") (text s) := admits_type rfl

theorem admits_date_time {s : String} : Admits document date_time (text s) :=
  admits_obj <| List.forall_mem_cons.mpr
    ⟨meets_type rfl, List.forall_mem_singleton.mpr (meets_remark rfl)⟩

theorem admits_nullable {s : Option String} : Admits document nullable_date_time (nullable s) := by
  refine admits_obj <| List.forall_mem_cons.mpr
    ⟨?_, List.forall_mem_singleton.mpr (meets_remark rfl)⟩
  cases s with
  | none => exact @meets_types document _ _ ["string", "null"] "null" (by decide) rfl
  | some s => exact @meets_types document _ _ ["string", "null"] "string" (by decide) rfl

theorem admits_unit {x : UnitFloat} : Admits document unit_number (unit_value x) := by
  obtain ⟨x, hlow, hhigh⟩ := x
  refine admits_obj <| List.forall_mem_cons.mpr ⟨meets_type rfl, List.forall_mem_cons.mpr ⟨?_,
    List.forall_mem_singleton.mpr ?_⟩⟩
  · exact @meets_bound document _ _ .minimum (.int 0) (.real x) 0 x rfl rfl rfl (decide_eq_true hlow)
  · exact @meets_bound document _ _ .maximum (.int 1) (.real x) 1 x rfl rfl rfl (decide_eq_true hhigh)

theorem admits_natural {n least : ℕ} (h : least ≤ n) : Admits document (integer_from least) (natural n) := by
  refine admits_obj <| List.forall_mem_cons.mpr ⟨meets_type rfl, List.forall_mem_singleton.mpr ?_⟩
  have hle : ((least : ℤ) : ℚ) ≤ ((n : ℤ) : ℚ) := by exact_mod_cast h
  exact @meets_bound document _ _ .minimum (.int least) (.int n) _ _ rfl rfl rfl (decide_eq_true hle)

theorem admits_count {n : ℕ} : Admits document (integer_from 0) (natural n) := admits_natural (Nat.zero_le n)

theorem admits_citation {c : CitationView} : Admits document CITATION (citation_payload c) := by
  have hspan : Admits document SPAN (.arr [natural c.span.1, natural c.span.2]) := by
    refine admits_obj <| List.forall_mem_cons.mpr ⟨meets_type rfl, List.forall_mem_cons.mpr ⟨?_,
      List.forall_mem_cons.mpr ⟨?_, List.forall_mem_singleton.mpr ?_⟩⟩⟩
    · exact meets_items (List.forall_mem_cons.mpr ⟨admits_count, List.forall_mem_singleton.mpr admits_count⟩)
    · exact @meets_size document _ _ _ .minItems (.int 2) 2 2 rfl rfl rfl (by decide)
    · exact @meets_size document _ _ _ .maxItems (.int 2) 2 2 rfl rfl rfl (by decide)
  exact admits_record (by decide) (by simp)
    (.keep admits_string (.keep hspan (.keep admits_string (.keep admits_string .nil))))

theorem admits_assertion {py : Readers} {a : StoredAssertion} :
    Admits document ASSERTION (assertion_payload (assertion_view py a)) := by
  have hprovenance : Admits document (.obj [("type", text "array"), ("minItems", .leaf (.int 1)),
      ("items", CITATION)]) (.arr ((assertion_view py a).provenance.map citation_payload)) := by
    refine admits_obj <| List.forall_mem_cons.mpr ⟨meets_type rfl, List.forall_mem_cons.mpr ⟨?_,
      List.forall_mem_singleton.mpr (meets_items ?_)⟩⟩
    · have hsome : 1 ≤ ((assertion_view py a).provenance.map citation_payload).length := by
        rw [List.length_map, assertion_view, List.length_map]
        exact List.length_pos_iff.mpr a.sourced
      have hle : ((1 : ℤ) : ℚ) ≤ ((assertion_view py a).provenance.map citation_payload).length := by
        exact_mod_cast hsome
      exact @meets_size document _ _ _ .minItems (.int 1) _ _ rfl rfl rfl (decide_eq_true hle)
    · intro x hx
      obtain ⟨c, -, rfl⟩ := List.mem_map.mp hx
      exact admits_citation
  exact admits_record (by decide) (by simp)
    (.keep admits_string (.keep admits_string (.keep admits_string (.keep admits_any (.keep admits_unit
      (.keep admits_date_time (.keep admits_nullable (.keep (admits_natural a.corroborated)
        (.keep hprovenance .nil)))))))))

theorem admits_excluded {a : ExcludedView} : Admits document EXCLUDED (excluded_payload a) :=
  admits_record (by decide) (by simp)
    (.keep admits_string (.keep admits_string (.keep admits_any (.keep admits_string
      (.keep admits_nullable .nil)))))

theorem admits_edge {e : EdgeView} : Admits document EDGE (edge_payload e) :=
  admits_record (by decide) (by simp)
    (.keep admits_string (.keep admits_string (.keep admits_string (.keep admits_any (.keep admits_unit
      (.keep admits_date_time (.keep admits_nullable .nil)))))))

/-- An array of rendered values. -/
theorem admits_all {α : Type} {items : Value} {render : α → Value} {xs : List α}
    (h : ∀ x ∈ xs, Admits document items (render x)) : Admits document (array items) (.arr (xs.map render)) :=
  admits_array fun v hv => by
    obtain ⟨x, hx, rfl⟩ := List.mem_map.mp hv
    exact h x hx

/-- CORRECT: a search's answer fits its schema, of whatever assertions it is made. -/
theorem admits_search {r : SearchResponse} {py : Readers} {shown : List StoredAssertion}
    (h : r.assertions = shown.map (assertion_view py)) : Admits document SEARCH_OUTPUT (search_payload r) := by
  have hassertions : Admits document (array ASSERTION) (.arr (r.assertions.map assertion_payload)) := by
    rw [h, List.map_map]
    exact admits_all fun _ _ => admits_assertion
  exact admits_record (by decide) (by simp)
    (.keep hassertions (.keep (admits_all fun _ _ => admits_excluded) (.keep admits_count
      (.keep admits_string .nil))))

/-- CORRECT: so does an entity's. -/
theorem admits_get_entity {r : EntityResponse} :
    Admits document GET_ENTITY_OUTPUT (get_entity_payload r) := by
  have hgroups : Admits document (.obj [("type", text "object"), ("additionalProperties", of_type "array")])
      (.obj (r.assertions.map fun group => (group.1, .arr (group.2.map assertion_payload)))) := by
    refine admits_obj <| List.forall_mem_cons.mpr ⟨meets_type rfl, List.forall_mem_singleton.mpr
      (meets_additionalProperties fun entry hentry _ => ?_)⟩
    obtain ⟨group, -, rfl⟩ := List.mem_map.mp hentry
    exact admits_type rfl
  exact admits_record (by decide) (by simp)
    (.keep admits_string (.keep admits_string (.keep admits_nullable (.keep hgroups
      (.keep (admits_all fun _ _ => admits_edge) (.keep (admits_type rfl) .nil))))))

theorem admits_decision {d : Decision} :
    Admits document (.obj [("enum", .arr (["auto_write", "hitl_review", "reject", "escalate"].map text))])
      (text d.value) := by
  refine admits_obj (List.forall_mem_singleton.mpr (@meets_enum document _ _ _ (text d.value) ?_ ?_))
  · cases d <;> simp [Decision.value]
  · rw [text, same]
    exact Atom.same_self _

theorem admits_candidate {c : CandidateEntry} : Admits document CANDIDATE (candidate_payload c) := by
  have hrest : Fills document [("assertion_id", of_type "string"), ("not_applied", of_type "string")]
      (optional_key "assertion_id" c.assertion_id ++ optional_key "not_applied" c.not_applied) := by
    cases c.assertion_id <;> cases c.not_applied
    · exact .nil
    · exact .skip (.keep admits_string .nil)
    · exact .keep admits_string .nil
    · exact .keep admits_string (.keep admits_string .nil)
  exact admits_record (by decide) (by simp)
    (.keep admits_string (.keep admits_string (.keep admits_any (.keep admits_decision (.keep admits_unit
      (.keep admits_unit (.keep (admits_all fun _ _ => admits_string) hrest)))))))

/-- CORRECT: and a proposal's, whichever keys its candidates carry. -/
theorem admits_propose {r : ProposeResponse} : Admits document PROPOSE_OUTPUT (propose_payload r) :=
  admits_record (by decide) (by simp)
    (.keep admits_string (.keep admits_string (.keep (admits_all fun _ _ => admits_candidate)
      (.keep admits_count (.keep admits_count (.keep (admits_type rfl)
        (.keep (admits_all fun _ _ => admits_record (by decide) (by simp)
          (.keep admits_string (.keep admits_string .nil))) .nil)))))))

end GuardMem.Tools
