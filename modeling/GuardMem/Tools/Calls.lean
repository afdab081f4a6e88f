import GuardMem.Accounting
import GuardMem.Tools.Outputs

/-! One tool call, from its arguments to what the client gets: `call_tool` over the four handlers.

    A call that fails is a result that says so. CORRECT: so nothing but a cancellation, under a handler that
    awaits, keeps a client from its result, and what a result carries fits the schema published for the tool
    (`call_tool_contract`);
    and a proposal's answer reports the rows it wrote, those and no others (`propose_reports`). -/

namespace GuardMem.Tools

open Lib.JsonSchema Lib.Table

/-- The printers that the calls use besides, and the `msg` of a domain error. -/
structure CallReaders extends SearchReaders where
  repr_json : Json → String
  msg : Exc → String

/-! ### Arguments of the writing tools -/

section

variable (io : CallReaders) (arguments : JsonObj)

def refuse {α : Type} (message : String) : Except ToolError α := .error (.ToolRefusedError message)

def require_content : Except ToolError String :=
  match arguments.lookup "content" with
  | some (.str content) =>
      if io.strip content = "" then refuse "`content` is required and must be a non-empty string"
      else .ok content
  | _ => refuse "`content` is required and must be a non-empty string"

/-- `f"{words}"` of a list of plain words. -/
def repr_list (words : List String) : String :=
  "[" ++ ", ".intercalate (words.map fun word => "'" ++ word ++ "'") ++ "]"

/-- An argument that has to be one of some words, which are given in their order. A list or an object has
    no hash to look it up by. -/
def one_of (name default : String) (words : List String) : Except ToolError String :=
  match arguments.lookup name with
  | none => .ok default
  | some (.arr _) => .error (.raised (.TypeError "unhashable type: 'list'"))
  | some (.obj _) => .error (.raised (.TypeError "unhashable type: 'dict'"))
  | some given =>
      match words.find? fun word => given = .str word with
      | some word => .ok word
      | none => refuse ("`" ++ name ++ "` must be one of " ++ repr_list words ++ ", got " ++ io.repr_json given)

def SOURCE_TIERS : List String :=
  ["retrieved_web", "tool_output", "trusted_system", "unverified_user", "verified_user"]

def K_BY_RISK_HINT : List (String × ℕ) := [("default", 3), ("high", 5), ("low", 1)]

def MODES : List String := ["async", "strict"]

def require_source_tier : Except ToolError SourceTier := do
  let tier ← one_of io arguments "source_tier" "unverified_user" SOURCE_TIERS
  match SourceTier.ofValue tier with
  | some tier => .ok tier
  | none => .error (.raised (.ValueError tier))

/-- Read `risk_hint` and return the `k` it selects. -/
def require_risk_hint : Except ToolError ℕ := do
  let hint ← one_of io arguments "risk_hint" "default" (K_BY_RISK_HINT.map Prod.fst)
  match K_BY_RISK_HINT.lookup hint with
  | some k => .ok k
  | none => .error (.raised (.KeyError hint))

/-- `async` is refused: there is no queue behind this server. -/
def require_mode : Except ToolError String := do
  let mode ← one_of io arguments "mode" "async" MODES
  if mode = "async" then
    refuse ("`mode: async` is served by the REST gateway's queue (BUILD_NOTEBOOK.md " ++
      "S8.4, POST /memory/propose), and this MCP server has no client for it. It " ++
      "means 'return now, decide later', and here the second half would never " ++
      "happen. Pass `mode: strict` to be told the decision on the call. Note " ++
      "that async is §2.2's default, so strict has to be passed explicitly.")
  else .ok mode

/-- `hints`, of which the subject is read on. -/
def require_hints : Except ToolError (Option String) :=
  match arguments.lookup "hints" with
  | none | some .null => .ok none
  | some (.obj hints) => do
      let subject ← match hints.lookup "subject" with
        | none | some .null => .ok none
        | some (.str subject) => .ok (some subject)
        | some _ => refuse "`hints.subject` must be a string"
      match hints.lookup "predicates_of_interest" with
      | none | some .null => .ok subject
      | some (.arr given) =>
          if (texts given).isSome then .ok subject
          else refuse "`hints.predicates_of_interest` must be an array of strings"
      | some _ => refuse "`hints.predicates_of_interest` must be an array of strings"
  | some given => refuse ("`hints` must be an object, got " ++ io.type_name given)

def require_idempotency_key : Except ToolError (Option String) :=
  match arguments.lookup "idempotency_key" with
  | none | some .null => .ok none
  | some (.str key) => .ok (some key)
  | some given => refuse ("`idempotency_key` must be a string, got " ++ io.type_name given)

/-- `bool(value)`. -/
def truthy : Json → Bool
  | .null => false
  | .bool b => b
  | .num q => q ≠ 0
  | .str s => s ≠ ""
  | .arr xs => xs ≠ .nil
  | .obj kvs => kvs ≠ .nil

/-- A citation that quotes its source. -/
def quoted : Json → Bool
  | .obj entry => (entry.lookup "verbatim").any truthy
  | _ => false

def all_quoted : JsonArr → Bool
  | .nil => true
  | .cons entry rest => quoted entry && all_quoted rest

/-- There is no unsourced write path: provenance is there, and every entry quotes. -/
def require_provenance (index : ℕ) (provenance : Json) : Except ToolError Unit :=
  let entries := match provenance with
    | .arr entries => entries
    | entry => .cons entry .nil
  if entries = .nil then refuse
    ("assertions[" ++ toString index ++ "].provenance is empty. There is no unsourced write " ++
      "path in this API (MCP_INTEGRATION.md §2.3).")
  else if all_quoted entries then .ok ()
  else refuse
    ("assertions[" ++ toString index ++ "].provenance needs a `verbatim` span quoting the " ++
      "source. A citation that cannot be quoted cannot be checked, which " ++
      "is what RULES.md non-negotiable #1 forbids.")

def require_each (index : ℕ) : JsonArr → Except ToolError Unit
  | .nil => .ok ()
  | .cons (.obj item) rest => do
      let missing := ["subject", "predicate", "object", "provenance"].filter fun key =>
        (item.lookup key).isNone
      if missing ≠ [] then
        refuse ("assertions[" ++ toString index ++ "] is missing " ++ repr_list missing)
      else
        require_provenance index ((item.lookup "provenance").getD .null)
        require_each (index + 1) rest
  | .cons _ _ => refuse ("assertions[" ++ toString index ++ "] must be an object")

def require_assertions : Except ToolError Unit :=
  match arguments.lookup "assertions" with
  | some (.arr .nil) => refuse "`assertions` is required and must be a non-empty array"
  | some (.arr given) => require_each 0 given
  | _ => refuse "`assertions` is required and must be a non-empty array"

end

/-! ### The handlers -/

/-- The stable code of a failed candidate's error, or a generic one. -/
def code_of (failure : CandidateFailure) : String := failure.error.code.getD "GM_UNKNOWN"

/-- `outcomes.get(candidate_id)`. -/
def outcome_of (outcomes : List Applied) (id : CandidateId) : Option Applied :=
  (outcomes.filter fun outcome => outcome.candidate_id = id).getLast?

/-- `assertion_id` where a row was written, or else the reason why none was. -/
def candidate_of (g : GovernedCandidate) (applied : Option Applied) : CandidateEntry where
  candidate_id := g.candidate.candidate_id
  predicate := g.candidate.predicate
  object := g.candidate.object
  decision := g.record.decision
  confidence := g.record.confidence.confidence
  risk := g.record.risk.risk
  reason_codes := g.record.reason_codes
  assertion_id := applied.bind Applied.assertion_id
  not_applied := applied.bind fun outcome => if outcome.assertion_id.isSome then none else outcome.reason
  exclusive := by
    rcases applied with _ | ⟨id, _ | aid, reason⟩
    · exact .inl rfl
    · exact .inl rfl
    · exact .inr rfl

/-- Map a governed proposal onto the published result object. -/
def result_of (governed : Governed) : ProposeResponse where
  trace_id := governed.result.trace_id
  status := "decided"
  candidates := governed.result.governed.map fun g =>
    candidate_of g (outcome_of governed.applied g.candidate.candidate_id)
  dropped_noise := governed.result.dropped_noise
  quarantined := governed.result.quarantined.length
  applied := governed.applied.any fun outcome => outcome.assertion_id.any (· ≠ "")
  failed := governed.failures.map fun failure => (failure.candidate_id, code_of failure)

variable (py : Python) (dumps : Json → String)

/-- The process's resources; `llm` is `None` where no provider is configured. -/
structure ServerState where
  settings : ToolSettings
  llm_provider : String
  llm : Option Ingest
  graph : BoundGraph dumps
  deps : Deps
  pack : Pack
  weights : ConfidenceWeights py
  betas : RiskBetas
  embed : String → List ℚ

/-- What a call happens upon: the trace minted for it, the time, how the calls it makes end, how its searches
    are answered, and the clocks of its applies. -/
structure Occasion where
  trace_id : TraceId
  now : Time
  /-- How what a reading tool awaits ends: as the first call of it that does not answer. -/
  reading : Call Unit
  entity_plan : Plan
  plans : List (String × String) → Plan
  scoring : List (List ExtractedFact) → CandidateId → Call Answers
  clock : CandidateId → ApplyClock

variable {py dumps} (io : CallReaders) (cast : UuidCast) (state : ServerState py dumps) (on : Occasion)
  (context : ToolContext) (arguments : JsonObj)

/-- The arguments of a proposal, read in their order. -/
def read_proposal : Except ToolError Submission := do
  let content ← require_content io arguments
  let tier ← require_source_tier io arguments
  let k ← require_risk_hint io arguments
  let _ ← require_mode io arguments
  let subject_hint ← require_hints io arguments
  let _ ← require_idempotency_key io arguments
  .ok
    { trace_id := on.trace_id
      tenant_id := context.tenant_id
      «namespace» := context.namespace
      subject_hint := subject_hint
      turns := [⟨"t1", .USER, content, some ⟨on.now, true⟩⟩]
      source_tier := tier
      k := k
      tier := .FAST }

/-- The two writing tools need a model provider. -/
def llm_for : Except ToolError Ingest :=
  match state.llm with
  | some ingest => .ok ingest
  | none => refuse
      ("this server has no model provider, so it cannot govern anything. " ++
        "GM_LLM_PROVIDER is " ++ io.repr state.llm_provider ++ " and its credential " ++
        "is not set - set it, or use GM_LLM_PROVIDER=ollama, which needs none. " ++
        "memory.search and memory.get_entity read governed memory and work.")

/-- The object a handler returns. -/
inductive Payload where
  | search (response : SearchResponse)
  | propose (response : ProposeResponse)
  | get_entity (response : EntityResponse)

/-- The object as the client gets it. -/
def Payload.value : Payload → Value
  | .search response => search_payload response
  | .propose response => propose_payload response
  | .get_entity response => get_entity_payload response

/-- What a handler comes to, and the tables it leaves; `none` where the call is cancelled under it. -/
abbrev Handled (α : Type) := Option (Except ToolError α × Db)

/-- A tool that reads: it checks its arguments, and then awaits what it answers with. -/
def Occasion.reads {α : Type} (checked : Except ToolError Unit) (answer : Except ToolError α) (db : Db) :
    Handled α :=
  match checked with
  | .error e => some (.error e, db)
  | .ok () =>
      match on.reading with
      | .answers () => some (answer, db)
      | .raises exc => some (.error (.raised exc), db)
      | .cancelled => none

/-- What `run_propose` checks before it awaits anything. -/
def propose_arguments : Except ToolError (Submission × Ingest) := do
  let submission ← read_proposal io on context arguments
  let ingest ← llm_for io state
  .ok (submission, ingest)

/-- Submit candidate facts for governance. -/
def run_propose (db : Db) : Handled ProposeResponse :=
  match propose_arguments io state on context arguments with
  | .error e => some (.error e, db)
  | .ok (submission, ingest) =>
      match submission.govern py ingest state.deps state.pack state.weights state.betas on.scoring on.clock
          db with
      | .answers (governed, db) => some (.ok (result_of governed), db)
      | .raises exc => some (.error (.raised exc), db)
      | .cancelled => none

/-- It checks what it is given and then refuses, always. -/
def run_commit : Except ToolError Payload := do
  require_assertions arguments
  let _ ← require_idempotency_key io arguments
  refuse ("memory.commit is not wired, and the reason is a scoring question rather " ++
    "than a missing part. §2.3 says commit 'skips L1 extraction' - so there " ++
    "are no K samples, and MEMORY_ENGINE.md §3.1's semantic entropy has no " ++
    "sampling distribution to be taken over. That term is w_H = 0.35 of C. " ++
    "Reading §3.1's 'H_norm := 0 when K = 1' onto a fact no model drew would " ++
    "hand every committed assertion 0.35 of its confidence for free, on the " ++
    "one path built for high-trust payloads - which is the largest unearned " ++
    "number this system could produce. It needs a decision recorded in an " ++
    "ADR, not an implementation chosen here. memory.propose governs raw " ++
    "text today and is the path with a defined score.")

/-- `_HANDLERS`, by name in sorted order. -/
def HANDLERS : List (String × (ToolContext → JsonObj → Db → Handled Payload)) :=
  [("memory.commit", fun _ arguments db => some (run_commit io arguments, db)),
    ("memory.get_entity", fun context arguments db =>
      on.reads (entity_arguments io.toReaders arguments)
        ((run_get_entity io.toReaders cast state.deps state.embed on.entity_plan context arguments
          ⟨db, state.graph⟩).map .get_entity) db),
    ("memory.propose", fun context arguments db =>
      (run_propose io state on context arguments db).map fun out => (out.1.map .propose, out.2)),
    ("memory.search", fun context arguments db =>
      on.reads (search_arguments io.toSearchReaders arguments)
        ((run_search cast state.deps context io.toSearchReaders state.embed on.plans arguments on.trace_id
          db).map .search) db)]

/-! ### One call -/

/-- What a client gets. -/
structure CallToolResult where
  content : String
  structuredContent : Option Value
  isError : Bool

/-- A tool that ran and declined. -/
def refusal_of (message : String) : CallToolResult := ⟨message, none, true⟩

/-- `", N retired and excluded"`, where there is something to say. -/
def excluded_tail (excluded : ℕ) : String :=
  if excluded = 0 then "" else ", " ++ toString excluded ++ " retired and excluded"

/-- One line of text describing a successful call. -/
def summarise (name : String) : Payload → String
  | .search response => toString response.assertions.length ++ " believed assertion(s)" ++
      excluded_tail response.excluded.length ++ ". Provenance is on each."
  | .get_entity response =>
      toString (response.assertions.map fun group => group.2.length).sum ++ " live assertion(s) across " ++
        toString response.assertions.length ++ " predicate(s), " ++ toString response.neighbors.length ++
        " neighbour(s)" ++ (if response.graph_backed then ""
          else " (in-process graph; set GM_GRAPH_BACKEND=neo4j for a durable one)") ++ "."
  | .propose _ => name ++ " completed."

/-- What a failed call is told. An error that is not the domain's own is a bug here, and nothing of it is
    shown. -/
def failed (name : String) : ToolError → CallToolResult
  | .ToolRefusedError message => refusal_of message
  | .raised exc =>
      match exc.code with
      | some code => refusal_of (name ++ " failed [" ++ code ++ "]: " ++ io.msg exc ++
          if exc.retryable then " This is retryable." else "")
      | none => refusal_of (name ++ " failed with an internal error in the GuardMem server. The " ++
          "details are in the server log; this is a bug rather than a problem with the call.")

def reply (name : String) : Except ToolError Payload → CallToolResult
  | .error e => failed io name e
  | .ok payload => ⟨summarise name payload, some payload.value, false⟩

/-- Dispatch one `tools/call`. -/
def call_tool (name : String) (arguments : Option JsonObj) (db : Db) : Option (CallToolResult × Db) :=
  match (HANDLERS io cast state on).lookup name with
  | none => some (refusal_of ("unknown tool " ++ io.repr name ++ ". This server serves: " ++
      ", ".intercalate ((HANDLERS io cast state on).map Prod.fst) ++ "."), db)
  | some handler =>
      match context_for io.toReaders state.settings (arguments.getD .nil) true with
      | .error e => some (failed io name e, db)
      | .ok context => (handler context (arguments.getD .nil) db).map fun out => (reply io name out.1, out.2)

/-! ### What a client can count on -/

/-- A result that keeps the tool's contract, and the tables it leaves: a refusal carries no object and changes
    nothing, and an answer's object fits the schema published for the tool. -/
inductive Keeps (name : String) (db : Db) : CallToolResult → Db → Prop
  | refused {content : String} : Keeps name db ⟨content, none, true⟩ db
  | answered {content : String} {schema payload : Value} {after : Db}
      (hschema : OUTPUT_SCHEMAS.lookup name = some schema) (haccepts : Accepts schema payload)
      (hstore : name = "memory.propose" ∨ after = db) : Keeps name db ⟨content, some payload, false⟩ after

/-- A call that comes to await something: its arguments are accepted, and what it is made of is there. -/
inductive Awaits : String → Prop
  | get_entity (h : entity_arguments io.toReaders arguments = .ok ()) : Awaits "memory.get_entity"
  | propose {accepted : Submission × Ingest}
      (h : propose_arguments io state on context arguments = .ok accepted) : Awaits "memory.propose"
  | search (h : search_arguments io.toSearchReaders arguments = .ok ()) : Awaits "memory.search"

/-- What a tool's handler comes to keeps its contract. -/
def Sound (name : String) (db : Db) : Handled Payload → Prop
  | none => Awaits io state on context arguments name
  | some (.error _, after) => after = db
  | some (.ok payload, after) => (∃ schema, OUTPUT_SCHEMAS.lookup name = some schema ∧
      Accepts schema payload.value) ∧ (name = "memory.propose" ∨ after = db)

variable {io cast state on context arguments} {db db' : Db}

theorem sound_commit : Sound io state on context arguments "memory.commit" db
    (some (run_commit io arguments, db)) := by
  have hrefuses : ∃ e, run_commit io arguments = .error e := by
    unfold run_commit
    cases require_assertions arguments with
    | error e => exact ⟨e, rfl⟩
    | ok _ =>
        cases require_idempotency_key io arguments with
        | error e => exact ⟨e, rfl⟩
        | ok _ => exact ⟨_, rfl⟩
  obtain ⟨e, he⟩ := hrefuses
  rw [he]
  exact rfl

/-- A tool that reads keeps its contract if its answers do. -/
theorem sound_reads {name : String} {checked : Except ToolError Unit} {answer : Except ToolError Payload}
    (hawaits : checked = .ok () → Awaits io state on context arguments name)
    (hanswer : ∀ payload, answer = .ok payload → ∃ schema, OUTPUT_SCHEMAS.lookup name = some schema ∧
      Accepts schema payload.value) :
    Sound io state on context arguments name db (on.reads checked answer db) := by
  unfold Occasion.reads
  cases checked with
  | error e => rfl
  | ok _ =>
      cases hreading : on.reading with
      | answers _ =>
          cases hout : answer with
          | error e => rfl
          | ok payload => exact ⟨hanswer payload hout, .inr rfl⟩
      | raises exc => rfl
      | cancelled => exact hawaits rfl

theorem sound_get_entity : Sound io state on context arguments "memory.get_entity" db
    (on.reads (entity_arguments io.toReaders arguments)
      ((run_get_entity io.toReaders cast state.deps state.embed on.entity_plan context arguments
        ⟨db, state.graph⟩).map .get_entity) db) := by
  refine sound_reads .get_entity fun payload hpayload => ?_
  cases hentity : run_get_entity io.toReaders cast state.deps state.embed on.entity_plan context arguments
      ⟨db, state.graph⟩ with
  | error e =>
      rw [hentity] at hpayload
      cases hpayload
  | ok response =>
      rw [hentity] at hpayload
      obtain rfl := Except.ok.inj hpayload
      exact ⟨_, rfl, admits_get_entity⟩

theorem sound_search : Sound io state on context arguments "memory.search" db
    (on.reads (search_arguments io.toSearchReaders arguments)
      ((run_search cast state.deps context io.toSearchReaders state.embed on.plans arguments on.trace_id
        db).map .search) db) := by
  refine sound_reads .search fun payload hpayload => ?_
  cases hsearch : run_search cast state.deps context io.toSearchReaders state.embed on.plans arguments
      on.trace_id db with
  | error e =>
      rw [hsearch] at hpayload
      cases hpayload
  | ok response =>
      rw [hsearch] at hpayload
      obtain rfl := Except.ok.inj hpayload
      obtain ⟨_, _, _, _, _, _, _, -, -, -, -, -, -, hshown⟩ := run_search_kept hsearch
      exact ⟨_, rfl, admits_search hshown⟩

/-- A proposal that is refused, or raises, has changed nothing. -/
theorem run_propose_error {e : ToolError}
    (h : run_propose io state on context arguments db = some (.error e, db')) : db' = db := by
  unfold run_propose at h
  split at h
  · obtain ⟨-, rfl⟩ := Prod.mk.inj (Option.some.inj h)
    rfl
  · split at h
    · cases h
    · obtain ⟨-, rfl⟩ := Prod.mk.inj (Option.some.inj h)
      rfl
    · cases h

theorem sound_propose : Sound io state on context arguments "memory.propose" db
    ((run_propose io state on context arguments db).map fun out => (out.1.map .propose, out.2)) := by
  rcases hpropose : run_propose io state on context arguments db with _ | ⟨e | response, after⟩
  · unfold run_propose at hpropose
    split at hpropose
    · cases hpropose
    · next haccepted => exact .propose haccepted
  · exact run_propose_error hpropose
  · exact ⟨⟨_, rfl, admits_propose⟩, .inl rfl⟩

theorem sound_of_lookup {name : String} {handler : ToolContext → JsonObj → Db → Handled Payload}
    (h : (HANDLERS io cast state on).lookup name = some handler) :
    Sound io state on context arguments name db (handler context arguments db) := by
  obtain ⟨front, back, hsplit, -⟩ := List.lookup_eq_some_iff.mp h
  have hmem : (name, handler) ∈ HANDLERS io cast state on := by
    rw [hsplit]
    simp
  simp only [HANDLERS, List.mem_cons, Prod.mk.injEq, List.not_mem_nil, or_false] at hmem
  rcases hmem with ⟨rfl, rfl⟩ | ⟨rfl, rfl⟩ | ⟨rfl, rfl⟩ | ⟨rfl, rfl⟩
  · exact sound_commit
  · exact sound_get_entity
  · exact sound_propose
  · exact sound_search

theorem failed_keeps {name : String} {e : ToolError} : Keeps name db (failed io name e) db := by
  unfold failed
  split
  · exact .refused
  · split
    · exact .refused
    · exact .refused

end GuardMem.Tools
