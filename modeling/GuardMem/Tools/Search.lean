import GuardMem.Lib.Ranking
import GuardMem.Tools.GetEntity

/-! `memory.search`: one vector search for each predicate asked for, merged, floored, cut and trimmed.

    CORRECT: an answered call shows the trim of the facts kept (`run_search_kept`), and the trim is the
    longest start of them that the budget pays for (`trim_to_budget_longest`). -/

namespace GuardMem

open Lib.Table Lib.Ranking

/-- The readers and printers of Python that a search calls besides. -/
structure SearchReaders extends Readers where
  strip : String → String
  str_number : ℚ → String
  str_object : ObjectValue → String

/-! ### Arguments -/

section

variable (py : SearchReaders) (arguments : JsonObj)

def require_query : Except ToolError String :=
  match arguments.lookup "query" with
  | some (.str query) =>
      if py.strip query = "" then
        .error (.ToolRefusedError "`query` is required and must be a non-empty string")
      else .ok query
  | _ => .error (.ToolRefusedError "`query` is required and must be a non-empty string")

/-- An argument that counts something. A bool is not an `int` here. -/
def positive_int (name : String) (default : ℕ) : Except ToolError ℕ :=
  match arguments.lookup name with
  | none => .ok default
  | some (.num q) =>
      if q.den = 1 then
        if q < 1 then .error (.ToolRefusedError
          ("`" ++ name ++ "` must be at least 1, got " ++ py.str_number q))
        else .ok q.num.toNat
      else .error (.ToolRefusedError ("`" ++ name ++ "` must be an integer, got " ++ py.type_name (.num q)))
  | some given => .error (.ToolRefusedError
      ("`" ++ name ++ "` must be an integer, got " ++ py.type_name given))

def DEFAULT_LIMIT : ℕ := 10
def MAX_LIMIT : ℕ := 50
def DEFAULT_TOKEN_BUDGET : ℕ := 1500
def DEFAULT_MIN_CONFIDENCE : ℚ := 6 / 10

/-- Clamped at the published maximum rather than refused. -/
def bounded_limit : Except ToolError ℕ := do
  .ok (min (← positive_int py arguments "limit" DEFAULT_LIMIT) MAX_LIMIT)

def token_budget : Except ToolError ℕ := positive_int py arguments "token_budget" DEFAULT_TOKEN_BUDGET

def min_confidence : Except ToolError ℚ :=
  match arguments.lookup "min_confidence" with
  | none => .ok DEFAULT_MIN_CONFIDENCE
  | some (.num value) =>
      if 0 ≤ value ∧ value ≤ 1 then .ok value
      else .error (.ToolRefusedError
        ("`min_confidence` must be in [0, 1], got " ++ py.str_number value))
  | some given => .error (.ToolRefusedError
      ("`min_confidence` must be a number, got " ++ py.type_name given))

/-- The caller's scoping. `predicates` that name nothing are no filter. -/
structure StoreFilters where
  subject_id : Option String
  predicate : Option (List String)
  named : predicate ≠ some []

/-- Refuse a `subject` that is plainly a name rather than an entity id. -/
def reject_surface_form (subject : String) : Except ToolError Unit :=
  if py.UUID subject then .ok ()
  else .error (.ToolRefusedError
    ("`subject` must be a resolved entity id (a UUID), got " ++ py.repr subject ++ ". " ++
      "It is an entity filter rather than a name: assertion.subject_id is " ++
      "a uuid column. GuardMem binds an entity to its namespace and never " ++
      "matches names (ADR-0008), so a surface form like 'Joan Ellery' " ++
      "cannot be looked up here. Use memory.get_entity, or omit `subject` " ++
      "and filter by `predicates`."))

def subject_filter : Except ToolError (Option String) :=
  match arguments.lookup "subject" with
  | none | some .null => .ok none
  | some (.str subject) => do
      reject_surface_form py subject
      .ok (some subject)
  | some given => .error (.ToolRefusedError ("`subject` must be a string, got " ++ py.type_name given))

/-- The texts of an array, where it holds nothing else. -/
def texts : JsonArr → Option (List String)
  | .nil => some []
  | .cons (.str text) rest => (texts rest).map (text :: ·)
  | .cons _ _ => none

theorem cons_named (text : String) (rest : List String) : some (text :: rest) ≠ some [] := by simp

theorem none_named : (none : Option (List String)) ≠ some [] := nofun

/-- Turn `subject` and `predicates` into store filters. -/
def store_filters : Except ToolError StoreFilters := do
  let subject ← subject_filter py arguments
  match arguments.lookup "predicates" with
  | none | some .null => .ok ⟨subject, none, none_named⟩
  | some (.arr given) =>
      match texts given with
      | none => .error (.ToolRefusedError "`predicates` must be an array of strings")
      | some [] => .ok ⟨subject, none, none_named⟩
      | some (text :: rest) => .ok ⟨subject, some (text :: rest), cons_named text rest⟩
  | some _ => .error (.ToolRefusedError "`predicates` must be an array of strings")

end

/-! ### The queries -/

namespace StoreFilters

variable (filters : StoreFilters)

/-- What each query is scoped to; `none` where no predicate was named. -/
def wanted : List (Option String) :=
  match filters.predicate with
  | none => [none]
  | some requested => requested.map some

def base : List (String × String) := (filters.subject_id.map fun text => ("subject_id", text)).toList

def scope (predicate : Option String) : List (String × String) :=
  filters.base ++ (predicate.map fun name => ("predicate", name)).toList

end StoreFilters

/-- The caller's filters as one store query per requested predicate. -/
def per_predicate (filters : StoreFilters) : List (List (String × String)) :=
  filters.wanted.map filters.scope

/-- `merged.setdefault(assertion_id, assertion)` over every batch. -/
def merge_batches (batches : List (List StoredAssertion)) : List StoredAssertion :=
  batches.flatten.foldl (fun merged a => insertNew StoredAssertion.assertion_id a merged) []

variable (cast : UuidCast) (deps : Deps) (context : ToolContext)

/-- Run the vector search, once per requested predicate. -/
def nearest (embedding : List ℚ) (limit : ℕ) (filters : StoreFilters) (as_of : Option Time) (db : Db) :
    Except Exc (List StoredAssertion) := do
  let batches ← collect (fun scope => PgVectorStore.search cast deps context.tenant_id context.namespace
    embedding limit scope as_of db) (per_predicate filters)
  .ok (merge_batches (batches.map fun hits => hits.map ScoredAssertion.assertion))

/-- The same where each query is answered by a plan of its own. -/
def nearest_under (plans : List (String × String) → Plan) (embedding : List ℚ) (limit : ℕ)
    (filters : StoreFilters) (as_of : Option Time) (db : Db) : Except Exc (List StoredAssertion) := do
  let batches ← collect (fun scope => (plans scope).search cast deps context.tenant_id context.namespace
    embedding limit scope as_of db) (per_predicate filters)
  .ok (merge_batches (batches.map fun hits => hits.map ScoredAssertion.assertion))

def EXCLUDED_LIMIT : ℕ := 10

/-- What this query's subject matter has stopped being believed. -/
def retired_for (filters : StoreFilters) (db : Db) : Except Exc (List StoredAssertion) := do
  let batches ← collect (fun scope => PgVectorStore.retired cast context.tenant_id context.namespace
    scope EXCLUDED_LIMIT db) (per_predicate filters)
  .ok ((merge_batches batches).take EXCLUDED_LIMIT)

/-- `[hit for hit in hits if hit.confidence >= floor][:limit]`. -/
def kept (floor : ℚ) (limit : ℕ) (hits : List StoredAssertion) : List StoredAssertion :=
  (hits.filter fun hit => floor ≤ hit.confidence.1).take limit

/-! ### The answer -/

/-- One retired assertion. -/
structure ExcludedView where
  assertion_id : AssertionId
  predicate : String
  object : ObjectValue
  reason : String
  «at» : Option String
  deriving DecidableEq

/-- What a call is answered with. -/
structure SearchResponse where
  assertions : List AssertionView
  excluded : List ExcludedView
  tokens_used : ℕ
  trace_id : TraceId
  deriving DecidableEq

variable (py : SearchReaders)

def excluded_view (a : StoredAssertion) : ExcludedView where
  assertion_id := a.assertion_id
  predicate := a.predicate
  object := a.object
  reason :=
    match a.superseded_by with
    | none => "retired"
    | some successor => if successor = "" then "retired" else "superseded_by " ++ successor
  «at» := a.valid_to.map py.isoformat

def CHARS_PER_TOKEN : ℕ := 3

/-- Estimate what one assertion costs in the caller's context. -/
def tokens (a : StoredAssertion) : ℕ :=
  max 1 ((a.predicate ++ py.str_object a.object ++
    String.join (a.provenance.map Provenance.verbatim)).length / CHARS_PER_TOKEN)

/-- The loop of `_trim_to_budget`, with what it has kept and used. -/
def trim_from (budget : ℕ) : List StoredAssertion → List StoredAssertion → ℕ → List StoredAssertion × ℕ
  | [], kept, used => (kept, used)
  | a :: rest, kept, used =>
      if used + tokens py a > budget then (kept, used)
      else trim_from budget rest (kept ++ [a]) (used + tokens py a)

/-- Drop from the tail until the estimate fits, and report what it cost. -/
def trim_to_budget (assertions : List StoredAssertion) (budget : ℕ) : List StoredAssertion × ℕ :=
  trim_from py budget assertions [] 0

/-- What `run_search` checks before it awaits anything. -/
def search_arguments (arguments : JsonObj) : Except ToolError Unit := do
  let _ ← require_query py arguments
  let _ ← bounded_limit py arguments
  let _ ← min_confidence py arguments
  let _ ← parse_as_of py.toReaders arguments
  let _ ← store_filters py arguments

/-- Answer `memory.search`. -/
def run_search (embed : String → List ℚ) (plans : List (String × String) → Plan) (arguments : JsonObj)
    (trace_id : TraceId) (db : Db) : Except ToolError SearchResponse := do
  let query ← require_query py arguments
  let limit ← bounded_limit py arguments
  let floor ← min_confidence py arguments
  let as_of ← parse_as_of py.toReaders arguments
  let filters ← store_filters py arguments
  let hits ← ToolError.lift
    (nearest_under cast deps context plans (embed query) limit filters (as_of.map Prod.fst) db)
  let budget ← token_budget py arguments
  let (trimmed, tokens_used) := trim_to_budget py (kept floor limit hits) budget
  let retired ← ToolError.lift (retired_for cast context filters db)
  .ok
    { assertions := trimmed.map (assertion_view py.toReaders)
      excluded := retired.map (excluded_view py)
      tokens_used := tokens_used
      trace_id := trace_id }

variable {py cast deps context}

/-- With every row looked at, they are the exact queries. -/
theorem nearest_under_exact {embedding : List ℚ} {limit : ℕ} {filters : StoreFilters} {as_of : Option Time}
    {db : Db} : nearest_under cast deps context (fun _ => .exact) embedding limit filters as_of db =
      nearest cast deps context embedding limit filters as_of db := by
  cases as_of <;> rfl

/-! ### The trim -/

/-- What the loop has kept and used stays, and the rest of it starts with the longest start of what is
    left that the rest of the budget pays for. -/
theorem trim_from_longest {budget : ℕ} : ∀ {rest kept : List StoredAssertion} {used : ℕ}, used ≤ budget →
    ∃ more, trim_from py budget rest kept used = (kept ++ more, used + (more.map (tokens py)).sum) ∧
      LongestStart (tokens py) (budget - used) rest more
  | [], kept, used, _ => by
      exact ⟨[], by simp [trim_from], List.prefix_rfl, Nat.zero_le _, fun zs hzs _ => hzs⟩
  | a :: rest, kept, used, hused => by
      rw [trim_from]
      split
      · next hover =>
          have hstart : [] <+: a :: rest := List.nil_prefix
          refine ⟨[], by simp, hstart, Nat.zero_le _, fun zs hzs hfits => ?_⟩
          cases zs with
          | nil => exact List.prefix_rfl
          | cons z zs =>
              obtain rfl : z = a := (List.cons_prefix_cons.mp hzs).1
              rw [List.map_cons, List.sum_cons] at hfits
              omega
      · next hfit =>
          have hroom : used + tokens py a ≤ budget := not_lt.mp hfit
          obtain ⟨more, heq, hstart, hfits, hlongest⟩ := @trim_from_longest budget rest (kept ++ [a]) _ hroom
          refine ⟨a :: more, ?_, List.cons_prefix_cons.mpr ⟨rfl, hstart⟩, ?_, fun zs hzs hcost => ?_⟩
          · rw [heq, List.append_assoc, List.map_cons, List.sum_cons, Nat.add_assoc]
            rfl
          · rw [List.map_cons, List.sum_cons]
            omega
          · cases zs with
            | nil => exact List.nil_prefix
            | cons z zs =>
                obtain ⟨rfl, hrest⟩ := List.cons_prefix_cons.mp hzs
                rw [List.map_cons, List.sum_cons] at hcost
                exact List.cons_prefix_cons.mpr ⟨rfl, hlongest zs hrest (by omega)⟩

/-- CORRECT: the trim keeps the longest start of the list that the budget pays for, and says what it
    costs. -/
theorem trim_to_budget_longest (assertions : List StoredAssertion) (budget : ℕ) :
    LongestStart (tokens py) budget assertions (trim_to_budget py assertions budget).1 ∧
      (trim_to_budget py assertions budget).2 =
        ((trim_to_budget py assertions budget).1.map (tokens py)).sum := by
  obtain ⟨more, heq, hlongest⟩ := @trim_from_longest py budget assertions [] 0 (Nat.zero_le budget)
  rw [trim_to_budget, heq]
  exact ⟨by simpa using hlongest, by simp⟩

/-! ### What an answer shows -/

theorem ToolError.bind_ok {α β : Type} {x : Except ToolError α} {f : α → Except ToolError β} {b : β} :
    (x >>= f) = .ok b ↔ ∃ a, x = .ok a ∧ f a = .ok b := by
  cases x with
  | error e => simp [bind, Except.bind]
  | ok a => simp [bind, Except.bind]

theorem ToolError.lift_ok {α : Type} {x : Except Exc α} {a : α} : ToolError.lift x = .ok a ↔ x = .ok a := by
  cases x with
  | error e => simp [ToolError.lift]
  | ok b => simp [ToolError.lift]

theorem positive_int_pos {arguments : JsonObj} {name : String} {default n : ℕ} (hdefault : 0 < default)
    (h : positive_int py arguments name default = .ok n) : 0 < n := by
  unfold positive_int at h
  split at h
  · exact Except.ok.inj h ▸ hdefault
  · next q _ =>
      split_ifs at h with hden hlow
      obtain rfl := Except.ok.inj h
      have hq : q = q.num := (Rat.den_eq_one_iff q).mp hden |>.symm
      have hpos : (1 : ℚ) ≤ q.num := hq ▸ not_lt.mp hlow
      have hnum : (1 : ℤ) ≤ q.num := by exact_mod_cast hpos
      omega
  · cases h

/-- A limit is within what the tool publishes. -/
theorem bounded_limit_range {arguments : JsonObj} {limit : ℕ}
    (h : bounded_limit py arguments = .ok limit) : 1 ≤ limit ∧ limit ≤ MAX_LIMIT := by
  obtain ⟨n, hn, hmin⟩ := ToolError.bind_ok.mp h
  obtain rfl := Except.ok.inj hmin
  have hpos := positive_int_pos (show 0 < DEFAULT_LIMIT by decide) hn
  exact ⟨le_min hpos (by decide), min_le_right _ _⟩

/-- CORRECT: an answered call shows the trim of what was kept of the hits. -/
theorem run_search_kept {embed : String → List ℚ} {plans : List (String × String) → Plan}
    {arguments : JsonObj} {trace_id : TraceId} {db : Db} {response : SearchResponse}
    (h : run_search cast deps context py embed plans arguments trace_id db = .ok response) :
    ∃ query limit floor as_of filters budget hits, bounded_limit py arguments = .ok limit ∧
      min_confidence py arguments = .ok floor ∧ parse_as_of py.toReaders arguments = .ok as_of ∧
      store_filters py arguments = .ok filters ∧ token_budget py arguments = .ok budget ∧
      nearest_under cast deps context plans (embed query) limit filters (as_of.map Prod.fst) db = .ok hits ∧
      response.assertions =
        (trim_to_budget py (kept floor limit hits) budget).1.map (assertion_view py.toReaders) := by
  simp only [run_search, ToolError.bind_ok, ToolError.lift_ok, Except.ok.injEq] at h
  obtain ⟨query, -, limit, hlimit, floor, hfloor, as_of, htime, filters, hfilters, hits, hhits, budget,
    hbudget, retired, -, rfl⟩ := h
  exact ⟨query, limit, floor, as_of, filters, budget, hits, hlimit, hfloor, htime, hfilters, hbudget,
    hhits, rfl⟩

end GuardMem
