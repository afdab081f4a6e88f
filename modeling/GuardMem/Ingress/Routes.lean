import GuardMem.Gateway
import GuardMem.Ingress.Shown

/-! The gateway's routes behind its chain: the probes, `GET /memory/search` and `POST /memory/propose`.

    The framework that parses and renders, and the process's clients, are the environment; what a handler
    asks of them are its calls.

    CORRECT: whatever a request carries, every call made for it is made for the tenant of its credential
    and under a scope that credential was issued with (`routed_run`). -/

namespace GuardMem.Ingress

open Lib.Interaction Limits Gateway

/-! ### Calls -/

/-- One assertion a search matched. -/
structure Hit where
  assertion_id : AssertionId
  subject_id : EntityId
  predicate : String
  object : ObjectValue
  confidence : ℚ
  cosine : ℚ

/-- What the handlers ask of the process's clients. -/
inductive Call where
  | mint
  | get (key : String)
  | put (key : String) (response : Json)
  | enqueue (job : Job)
  | govern (tenant : TenantId) (trace : TraceId) (body : ProposeRequest)
  | embed (text : String)
  | search (tenant : TenantId) (timeout_s : ℚ) («namespace» : Namespace) (vector : List ℚ) (k : ℕ)
  | postgres_ok
  | redis_ok

/-- A client that raises answers with the text of what it raised. -/
def Call.Answer : Call → Type
  | .mint => String
  | .get _ => Except String (Option Json)
  | .put _ _ => Except String Unit
  | .enqueue _ => Except String Unit
  | .govern _ _ _ => Except String Counts
  | .embed _ => Except String (List ℚ)
  | .search _ _ _ _ _ => Except String (List Hit)
  | .postgres_ok => Bool
  | .redis_ok => Bool

/-- What a search is asked, as its bounds admit it. -/
structure SearchParams where
  q : String
  «namespace» : Namespace
  k : ℕ := 10
  q_bound : 1 ≤ q.length ∧ q.length ≤ 2000
  namespace_bound : 1 ≤ «namespace».length ∧ «namespace».length ≤ 200
  k_bound : 1 ≤ k ∧ k ≤ 50

/-- What a route answers with. -/
inductive Response where
  | liveness
  | readiness (postgres redis : Bool)
  | search (params : SearchParams) (hits : List Hit)
  | answer (answer : Gateway.Answer)
  | detail (text : String)
  | unprocessable

/-- Parsing and rendering, and the routes it adds of its own. -/
structure Framework where
  json : Bytes → Option Json
  propose_request : Json → Option ProposeRequest
  idempotency_key : Scope → Option (Option String)
  search_params : Bytes → Option SearchParams
  render : ℕ → Response → List Message
  documents : Scope → List Message

/-- The settings that the handlers read, and whether a model provider is bound. -/
structure Process where
  default_k : ℕ
  store_timeout_s : ℚ
  model_bound : Bool

abbrev Action (A : Type) := Proc (Inner Call) (Inner.Answer Call.Answer) A

def own (c : Call) : Action (Call.Answer c) :=
  Proc.perform (.own c : Inner Call)

def clock : Action ℚ := Proc.perform (.monotonic : Inner Call)

/-- One message after another. -/
def send_all : List Message → Action Outcome
  | [] => .ret .returned
  | m :: ms => .call (.send m) fun _ => send_all ms

variable (framework : Framework) (process : Process)

def respond (status : ℕ) (response : Response) : Action Outcome :=
  send_all (framework.render status response)

/-- The body, chunk by chunk: at most so many of them. -/
def read_body : ℕ → Bytes → Action (Except String Bytes)
  | 0, _ => .ret (.error "the body does not end")
  | limit + 1, read => .call .receive fun (m : Message) =>
      match m with
      | .request chunk true => read_body limit (read ++ chunk)
      | .request chunk false => .ret (.ok (read ++ chunk))
      | _ => .ret (.error "ClientDisconnect")

/-! ### Dependencies -/

/-- The authenticated caller. -/
def principal (state : State) : Except String Principal :=
  match state.principal with
  | some found => .ok found
  | none => .error "no principal on the request"

def deadline (state : State) : Except String Deadline :=
  match state.deadline with
  | some found => .ok found
  | none => .error "no deadline on the request"

/-- Below this, a remaining budget is not worth spending. -/
def FLOOR_S : ℚ := 5 / 1000

/-- The timeout one downstream call should use: the clock is read for each question. -/
def Deadline.for_call (d : Deadline) (ceiling_s : ℚ) : Action (Except String ℚ) := do
  let now : ℚ ← clock
  if d.remaining_s now < FLOOR_S then return .error "request budget exhausted"
  else do
    let now : ℚ ← clock
    return .ok (min ceiling_s (d.remaining_s now))

def require (caller : Principal) (scope : String) : Except Response Unit :=
  if scope ∈ caller.scopes then .ok () else .error (.detail ("this credential lacks the " ++ scope ++ " scope"))

def READ_SCOPE : String := "memory:read"

def WRITE_SCOPE : String := "memory:write"

/-! ### The handlers -/

/-- `GET /memory/search`. -/
def search (scope : Scope) : Action Outcome :=
  match principal scope.state, deadline scope.state with
  | .error reason, _ | _, .error reason => .ret (.raised reason)
  | .ok caller, .ok deadline => do
      let timeout : Except String ℚ ← deadline.for_call process.store_timeout_s
      match timeout, framework.search_params scope.query_string with
      | .error reason, _ => .ret (.raised reason)
      | _, none => respond framework 422 .unprocessable
      | .ok timeout_s, some params =>
          match require caller READ_SCOPE with
          | .error refusal => respond framework 403 refusal
          | .ok () => do
              let vector : Except String (List ℚ) ← own (.embed params.q)
              match vector with
              | .error reason => .ret (.raised reason)
              | .ok vector => do
                  let found : Except String (List Hit) ←
                    own (.search caller.tenant_id timeout_s params.namespace vector params.k)
                  match found with
                  | .error reason => .ret (.raised reason)
                  | .ok hits => respond framework 200 (.search params hits)

/-- `IdempotencyStore._key`. -/
def idempotency_key (caller : Principal) (key body_hash : String) : String :=
  "idem:" ++ caller.tenant_id ++ ":" ++ key ++ ":" ++ body_hash

/-- What `enqueue` hands to the worker. -/
def enqueued (tenant : TenantId) (trace : TraceId) (body : ProposeRequest) (body_hash : Option String) :
    Job where
  function := "evaluate"
  payload := .obj <| .ofList
    [("tenant_id", .str tenant), ("trace_id", .str trace), ("namespace", .str body.namespace),
     ("turns", .arr (.ofList body.turns)), ("source_tier", .str body.source_tier.value),
     ("k", .num process.default_k), ("tier", .str "balanced"),
     ("body_hash", match body_hash with | some hash => .str hash | none => .null)]
  job_id := trace
  queue_name := "guardmem:eval"

/-- 200 for a decision, 202 for a proposal accepted for later. -/
def status_of : Gateway.Answer → ℕ
  | .decided .. => 200
  | .accepted .. => 202

/-- The stored response is kept where a repeat is to be told from a first attempt. -/
def stored_under (caller : Principal) (key body_hash : Option String) : Option String :=
  match key, body_hash with
  | some key, some body_hash => some (idempotency_key caller key body_hash)
  | _, _ => none

/-- Do the work of a first attempt, in either mode, under a trace of its own. -/
def work (caller : Principal) (body : ProposeRequest) (body_hash : Option String) :
    Action (Except Outcome (Except Response Gateway.Answer)) := do
  let hex : String ← own .mint
  let trace := "tr_" ++ String.ofList (hex.toList.take 12)
  match body.mode with
  | .strict =>
      if process.model_bound then do
        let counts : Except String Counts ← own (.govern caller.tenant_id trace body)
        match counts with
        | .error reason => return .error (.raised reason)
        | .ok c => return .ok (.ok (.decided trace c.scored c.written c.rejected c.quarantined c.failed))
      else return .ok (.error (.detail "mode=strict needs a model provider; none is configured"))
  | .async => do
      let queued : Except String Unit ← own (.enqueue (enqueued process caller.tenant_id trace body body_hash))
      match queued with
      | .error reason => return .error (.raised reason)
      | .ok () => return .ok (.ok (.accepted trace body_hash))

/-- A first attempt, and its answer recorded. -/
def attempt (caller : Principal) (body : ProposeRequest) (body_hash stored_under : Option String) :
    Action Outcome := do
  let worked : Except Outcome (Except Response Gateway.Answer) ← work process caller body body_hash
  match worked, stored_under with
  | .error outcome, _ => .ret outcome
  | .ok (.error refusal), _ => respond framework 503 refusal
  | .ok (.ok answer), none => respond framework (status_of answer) (.answer answer)
  | .ok (.ok answer), some key => do
      let recorded : Except String Unit ← own (.put key answer.model_dump)
      match recorded with
      | .error reason => .ret (.raised reason)
      | .ok () => respond framework (status_of answer) (.answer answer)

/-- `POST /memory/propose`, its parameters resolved. -/
def propose (state : State) (caller : Principal) (body : ProposeRequest) (key : Option String) :
    Action Outcome :=
  match require caller WRITE_SCOPE with
  | .error refusal => respond framework 403 refusal
  | .ok () => do
      let body_hash : Option String ← body_hash_of state
      match stored_under caller key body_hash with
      | none => attempt framework process caller body body_hash none
      | some under => do
          let stored : Except String (Option Json) ← own (.get under)
          match stored with
          | .error reason => .ret (.raised reason)
          | .ok none => attempt framework process caller body body_hash (some under)
          | .ok (some stored) =>
              match replayed stored with
              | none => .ret (.raised "ValidationError")
              | some answer => respond framework (status_of answer) (.answer answer)

/-- The route: the body is read first, then what the handler depends on is resolved. -/
def propose_route (limit : ℕ) (scope : Scope) : Action Outcome := do
  let raw : Except String Bytes ← read_body limit []
  match raw with
  | .error reason => .ret (.raised reason)
  | .ok raw =>
      match framework.json raw, principal scope.state with
      | none, _ => respond framework 422 .unprocessable
      | _, .error reason => .ret (.raised reason)
      | some json, .ok caller =>
          match framework.propose_request json, framework.idempotency_key scope with
          | some body, some key => propose framework process scope.state caller body key
          | _, _ => respond framework 422 .unprocessable

/-- `GET /readyz`. -/
def readyz : Action Outcome := do
  let postgres : Bool ← own .postgres_ok
  let redis : Bool ← own .redis_ok
  respond framework (if postgres && redis then 200 else 503) (.readiness postgres redis)

/-- `ROUTERS`, and what the framework serves beside them. -/
def routes (limit : ℕ) (scope : Scope) : Action Outcome :=
  match scope.method, scope.path with
  | "GET", "/healthz" => respond framework 200 .liveness
  | "GET", "/readyz" => readyz framework
  | "GET", "/memory/search" => search framework process scope
  | "POST", "/memory/propose" => propose_route framework process limit scope
  | _, _ => send_all (framework.documents scope)

/-! ### Whose calls they are -/

/-- Under the scope a call needs, a caller's calls are for the caller's tenant. -/
def Speaks (caller : Principal) : Call → Prop
  | .mint => WRITE_SCOPE ∈ caller.scopes
  | .get key | .put key _ => WRITE_SCOPE ∈ caller.scopes ∧
      ∃ key' body_hash, key = idempotency_key caller key' body_hash
  | .enqueue job => WRITE_SCOPE ∈ caller.scopes ∧
      ∃ trace body body_hash, job = enqueued process caller.tenant_id trace body body_hash
  | .govern tenant _ _ => WRITE_SCOPE ∈ caller.scopes ∧ tenant = caller.tenant_id
  | .embed _ => READ_SCOPE ∈ caller.scopes
  | .search tenant timeout_s _ _ k => READ_SCOPE ∈ caller.scopes ∧ tenant = caller.tenant_id ∧
      timeout_s ≤ process.store_timeout_s ∧ k ≤ 50
  | .postgres_ok | .redis_ok => False

/-- A handler's own calls are such, and the rest is its request and the clock. -/
def Within (P : Call → Prop) : Inner Call → Prop
  | .own c => P c
  | _ => True

variable {framework process} {P : Call → Prop} {caller : Principal}

theorem own_only {c : Call} (h : P c) : (own c).Only (Within P) := only_perform.mpr h

theorem send_all_only : ∀ ms : List Message, (send_all ms).Only (Within P)
  | [] => trivial
  | _ :: ms => ⟨trivial, fun _ => send_all_only ms⟩

theorem respond_only (status : ℕ) (response : Response) : (respond framework status response).Only (Within P) :=
  send_all_only _

theorem read_body_only : ∀ (limit : ℕ) (read : Bytes), (read_body limit read).Only (Within P)
  | 0, _ => trivial
  | limit + 1, read => by
      refine ⟨trivial, fun (m : Message) => ?_⟩
      rcases m with ⟨chunk, more⟩ | _ | _ | _ | _
      · cases more
        · trivial
        · exact read_body_only limit _
      all_goals trivial

theorem body_hash_of_only (state : State) :
    (body_hash_of state : Action (Option String)).Only (Within P) := by
  rw [body_hash_of]
  split
  · exact only_bind (only_perform.mpr trivial) fun _ => trivial
  · trivial

theorem require_ok {scope : String} (h : require caller scope = .ok ()) : scope ∈ caller.scopes := by
  unfold require at h
  split at h
  · assumption
  · cases h

theorem work_only (hscope : WRITE_SCOPE ∈ caller.scopes) (body : ProposeRequest) (body_hash : Option String) :
    (work process caller body body_hash).Only (Within (Speaks process caller)) := by
  refine only_bind (own_only hscope) fun hex => ?_
  dsimp only
  split
  · split
    · refine only_bind (own_only ⟨hscope, rfl⟩) fun counts => ?_
      split <;> trivial
    · trivial
  · refine only_bind (own_only ⟨hscope, _, body, body_hash, rfl⟩) fun queued => ?_
    split <;> trivial

theorem stored_under_some {key body_hash : Option String} {under : String}
    (h : stored_under caller key body_hash = some under) :
    ∃ key' body_hash', under = idempotency_key caller key' body_hash' := by
  cases key with
  | none => cases h
  | some key =>
      cases body_hash with
      | none => cases h
      | some body_hash => exact ⟨key, body_hash, (Option.some.inj h).symm⟩

theorem attempt_only (hscope : WRITE_SCOPE ∈ caller.scopes) (body : ProposeRequest)
    (key body_hash : Option String) :
    (attempt framework process caller body body_hash (stored_under caller key body_hash)).Only
      (Within (Speaks process caller)) := by
  refine only_bind (work_only hscope body body_hash) fun worked => ?_
  split
  · trivial
  · exact respond_only _ _
  · exact respond_only _ _
  · rename_i under hunder
    obtain ⟨key', body_hash', rfl⟩ := stored_under_some hunder
    refine only_bind (own_only ⟨hscope, key', body_hash', rfl⟩) fun recorded => ?_
    split
    · trivial
    · exact respond_only _ _

theorem propose_only (state : State) (body : ProposeRequest) (key : Option String) :
    (propose framework process state caller body key).Only (Within (Speaks process caller)) := by
  unfold propose
  split
  · exact respond_only _ _
  · rename_i hrequire
    have hscope := require_ok hrequire
    refine only_bind (body_hash_of_only state) fun body_hash => ?_
    have hattempt := @attempt_only framework process caller hscope body key body_hash
    rcases hunder : stored_under caller key body_hash with _ | under <;> rw [hunder] at hattempt
    · exact hattempt
    · obtain ⟨key', body_hash', hkey⟩ := stored_under_some hunder
      refine only_bind (own_only ⟨hscope, key', body_hash', hkey⟩) fun stored => ?_
      split
      · trivial
      · exact hattempt
      · split
        · trivial
        · exact respond_only _ _

theorem for_call_only (d : Deadline) (ceiling_s : ℚ) : (d.for_call ceiling_s).Only (Within P) := by
  refine only_bind (only_perform.mpr trivial) fun now => ?_
  split
  · trivial
  · exact only_bind (only_perform.mpr trivial) fun _ => trivial

/-- A timeout is below its ceiling. -/
theorem for_call_le {d : Deadline} {ceiling_s timeout_s : ℚ} {r : Routed Call.Answer}
    (h : Run (d.for_call ceiling_s) r (.ok timeout_s)) : timeout_s ≤ ceiling_s := by
  obtain ⟨now, u, -, h⟩ := run_perform_bind.mp h
  split at h
  · cases h
  · obtain ⟨now, u, -, h⟩ := run_perform_bind.mp h
    obtain ⟨-, h⟩ := run_ret.mp h
    rw [Except.ok.inj h]
    exact min_le_left _ _

theorem only_of_run {A B : Type} {p : Action A} {f : A → Action B} {Q : Inner Call → Prop} (hp : p.Only Q)
    (hf : ∀ a r, Run p r a → (f a).Only Q) : (p >>= f).Only Q := by
  show (p.bind f).Only Q
  induction p with
  | ret a => exact hf a [] (.ret a)
  | call e next ih => exact ⟨hp.1, fun x => ih x (hp.2 x) fun a r hr => hf a _ (.call x hr)⟩

/-- The caller a handler was handed. -/
def Handed (process : Process) (state : State) (c : Call) : Prop :=
  ∃ caller, state.principal = some caller ∧ Speaks process caller c

theorem principal_ok {state : State} (h : principal state = .ok caller) : state.principal = some caller := by
  unfold principal at h
  split at h
  · rename_i found hfound
    rw [hfound, Except.ok.inj h]
  · cases h

theorem Only.mono {A : Type} {Q : Call → Prop} (h : ∀ c, P c → Q c) {p : Action A} (hp : p.Only (Within P)) :
    p.Only (Within Q) := by
  induction p with
  | ret => trivial
  | call e next ih =>
      refine ⟨?_, fun r => ih r (hp.2 r)⟩
      cases e
      case own c => exact h c hp.1
      all_goals trivial

theorem search_only (scope : Scope) :
    (search framework process scope).Only (Within (Handed process scope.state)) := by
  unfold search
  split
  · trivial
  · trivial
  · rename_i caller d hcaller _
    have hmono : ∀ c, Speaks process caller c → Handed process scope.state c :=
      fun c hc => ⟨caller, principal_ok hcaller, hc⟩
    refine only_of_run (for_call_only d _) fun timeout r hrun => ?_
    split
    · trivial
    · exact respond_only _ _
    · rename_i timeout_s params _
      split
      · exact respond_only _ _
      · rename_i hrequire
        have hscope := require_ok hrequire
        refine only_bind (own_only (hmono _ hscope)) fun vector => ?_
        split
        · trivial
        · refine only_bind (own_only (hmono _ ⟨hscope, rfl, for_call_le hrun, params.k_bound.2⟩)) fun found => ?_
          split
          · trivial
          · exact respond_only _ _

theorem propose_route_only (limit : ℕ) (scope : Scope) :
    (propose_route framework process limit scope).Only (Within (Handed process scope.state)) := by
  refine only_bind (read_body_only limit []) fun raw => ?_
  split
  · trivial
  · split
    · exact respond_only _ _
    · trivial
    · rename_i json caller _ hcaller
      split
      · exact Only.mono (fun c hc => ⟨caller, principal_ok hcaller, hc⟩) (propose_only _ _ _)
      · exact respond_only _ _

/-- The two calls of the readiness probe. -/
def Probe (scope : Scope) (c : Call) : Prop :=
  scope.path = "/readyz" ∧ (c = .postgres_ok ∨ c = .redis_ok)

theorem routes_only (limit : ℕ) (scope : Scope) : (routes framework process limit scope).Only
    (Within fun c => Probe scope c ∨ Handed process scope.state c) := by
  unfold routes
  split
  · exact respond_only _ _
  · rename_i hpath
    refine only_bind (own_only (Or.inl ⟨hpath, Or.inl rfl⟩)) fun _ => ?_
    refine only_bind (own_only (Or.inl ⟨hpath, Or.inr rfl⟩)) fun _ => respond_only _ _
  · exact Only.mono (fun _ => Or.inr) (search_only scope)
  · exact Only.mono (fun _ => Or.inr) (propose_route_only limit scope)
  · exact send_all_only _

/-- A handler's call is shown as it was made. -/
theorem shown_own {H : Type} {K : H → Type} {keep : Bool} {extra : Headers} {chunks z : Bytes} {r : Routed K}
    {t : Trace K} (hs : Shows (guarded keep extra) chunks r t z) {h : H} {x : K h}
    (hmem : ⟨.own h, x⟩ ∈ t) : ⟨.own h, x⟩ ∈ r := by
  induction hs with
  | nil => cases hmem
  | answer _ _ ih => exact List.mem_cons_of_mem _ (ih hmem)
  | @forward s z e e' back y r t hh hs ih =>
      rcases List.mem_cons.mp hmem with heq | hmem
      · rcases e with _ | m | _ | _ | h'
        case own =>
          obtain ⟨rfl, rfl⟩ := Handled.forward.inj hh
          cases heq
          exact List.mem_cons_self
        case send => cases m <;> (obtain ⟨rfl, -⟩ := Handled.forward.inj hh; cases congrArg Sigma.fst heq)
        case collected => cases hh
        all_goals (obtain ⟨rfl, -⟩ := Handled.forward.inj hh; cases congrArg Sigma.fst heq)
      · exact List.mem_cons_of_mem _ (ih hmem)

/-- The calls of a route are those that repeats of one write are told apart by. -/
theorem calls_of_write (w : Write) (caller : Principal) (htenant : caller.tenant_id = w.tenant_id)
    (trace : TraceId) : stored_under caller (some w.idempotency_key) (digest w.raw) = some w.key ∧
      enqueued process caller.tenant_id trace w.body (digest w.raw) = job w process.default_k trace := by
  have hdigest : digest w.raw = some w.body_hash := if_neg w.received
  rw [hdigest, htenant]
  refine ⟨?_, rfl⟩
  rw [stored_under, idempotency_key, htenant]
  rfl

/-- CORRECT: whatever the request carries (its path, its method, its headers, its query and its body), a
    handler's call is the readiness probe's, or is made for the tenant of the principal that the
    request's credential is configured with and under a scope this principal was issued. -/
theorem routed_run {gateway : GatewayState} {limit : ℕ} {scope : Scope} {t : Trace Call.Answer} {o : Outcome}
    (hhttp : scope.type = "http") (hfresh : scope.state = {})
    (h : Run (apply gateway (routes framework process limit) scope) t o) (c : Call) (x : c.Answer)
    (hmem : ⟨.own c, x⟩ ∈ t) :
    Probe scope c ∨ ∃ caller, gateway.presented scope = .ok caller ∧ Speaks process caller c := by
  obtain ⟨id, front, u, extra, rfl, hfront, -, -, hrest⟩ := met_of_run hhttp hfresh h
  have hu : ⟨.own c, x⟩ ∈ u := (List.mem_append.mp hmem).resolve_left fun hmem => hfront _ hmem
  rcases hrest with ⟨status, payload, headers, rfl, -, -⟩ | ⟨state, ⟨r, z, hrun, hshows⟩, -, hentitled⟩
  · simp [refusal] at hu
    rcases hu with hu | hu <;> cases congrArg Sigma.fst hu
  · have hcall := hrun.only (routes_only limit _) _ (shown_own hshows hu)
    rcases hcall with hprobe | ⟨caller, hcaller, hspeaks⟩
    · exact Or.inl hprobe
    · rcases hentitled with ⟨-, hnobody, -⟩ | ⟨principal, hpresented, hprincipal, -, -⟩
      · exact absurd (hnobody.symm.trans hcaller) (by simp)
      · obtain rfl := Option.some.inj (hprincipal.symm.trans hcaller)
        exact Or.inr ⟨principal, hpresented, hspeaks⟩

/-! ### One search -/

/-- A framework that parses one search and renders nothing. -/
def plain_framework : Framework where
  json _ := none
  propose_request _ := none
  idempotency_key _ := none
  search_params _ := some ⟨"allergies", "patient:42", 10, by decide, by decide, by decide⟩
  render _ _ := []
  documents _ := []

def small_process : Process := ⟨5, 3, false⟩

def search_with (authorization : String) : Scope where
  type := "http"
  path := "/memory/search"
  method := "GET"
  headers := [(encode "authorization", encode authorization)]

def Call.answer : (c : Call) → c.Answer
  | .mint => "0123456789abcdef"
  | .get _ => .ok none
  | .put _ _ | .enqueue _ => .ok ()
  | .govern _ _ _ => .ok ⟨0, 0, 0, 0, 0⟩
  | .embed _ => .ok [1]
  | .search _ _ _ _ _ => .ok []
  | .postgres_ok | .redis_ok => true

def served : (e : Outer Call) → e.Answer Call.Answer
  | .receive => .disconnect
  | .send _ => ()
  | .monotonic => (0 : ℚ)
  | .uuid4 => ""
  | .check _ => .ok ⟨true, 9, 0⟩
  | .log _ _ => ()
  | .own c => c.answer

theorem routed_run_acme : ∃ t o,
    Run (apply one_key (routes plain_framework small_process 1) (search_with "Bearer sk-acme-1")) t o ∧
      ∀ (c : Call) (x : c.Answer), ⟨.own c, x⟩ ∈ t → Probe (search_with "Bearer sk-acme-1") c ∨
        ∃ caller, one_key.presented (search_with "Bearer sk-acme-1") = .ok caller ∧
          Speaks small_process caller c := by
  obtain ⟨t, o, h⟩ := Run.exists served
    (apply one_key (routes plain_framework small_process 1) (search_with "Bearer sk-acme-1"))
  exact ⟨t, o, h, fun c x hmem => routed_run rfl rfl h c x hmem⟩

end GuardMem.Ingress
