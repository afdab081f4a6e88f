import GuardMem.Lib.Interaction
import GuardMem.Lib.Lines
import GuardMem.Lib.Sha256
import GuardMem.Lib.Urllib
import GuardMem.PerCredential

/-! The gateway's request chain: the six layers of `gateway/middleware`, in the order `apply` runs them.

    A layer is an ASGI application around another: it awaits `receive` and `send`, or hands wrapped ones
    in. What is inside of all of them, the router with its handlers, is any program. -/

namespace GuardMem.Ingress

open Lib.Interaction Limits

/-! ### ASGI -/

abbrev Bytes := List UInt8
abbrev Headers := List (Bytes × Bytes)

def encode (text : String) : Bytes := Lib.Urllib.encode text.toList

/-- `decode("latin-1")`: a byte is the character of its number. -/
def latin1 (bytes : Bytes) : String := String.ofList (bytes.map Char.ofUInt8)

/-- What `str.strip` takes off, among the characters of latin-1. -/
def is_space (c : Char) : Bool := c.toNat ∈ [9, 10, 11, 12, 13, 28, 29, 30, 31, 32, 133, 160]

def strip (text : String) : String := String.ofList (Lib.Lines.strip is_space text.toList)

inductive Message where
  | request (body : Bytes) (more_body : Bool)
  | disconnect
  | start (status : ℕ) (headers : Option Headers)
  | body (payload : Bytes) (more_body : Bool)
  | other (type : String)
  deriving DecidableEq

/-- An instant by which a request must be finished. -/
structure Deadline where
  expires_at : ℚ
  deriving DecidableEq

/-- `Request.state`; nothing is there before a layer puts it there. -/
structure State where
  deadline : Option Deadline := none
  request_id : Option String := none
  principal : Option Principal := none
  tenant_id : Option TenantId := none
  body_hash_of : Bool := false
  deriving DecidableEq

structure Scope where
  type : String
  path : String
  method : String
  query_string : Bytes := []
  headers : Headers
  state : State := {}

/-- What the bucket said. -/
structure Decision where
  allowed : Bool
  remaining : ℤ
  retry_after_s : ℚ
  deriving DecidableEq

/-- What the router awaits: ASGI, the clock, the callable that `BodyHash` left it, and calls `H` of its
    handlers' own. -/
inductive Inner (H : Type) where
  | receive
  | send (message : Message)
  | monotonic
  | collected
  | own (h : H)

/-- What the chain awaits; a log line carries what it names. -/
inductive Outer (H : Type) where
  | receive
  | send (message : Message)
  | monotonic
  | uuid4
  | check (principal : Principal)
  | log (event : String) (extra : List (String × Option String))
  | own (h : H)

variable {H : Type} (K : H → Type)

def Inner.Answer : Inner H → Type
  | .receive => Message
  | .send _ => Unit
  | .monotonic => ℚ
  | .collected => Bytes
  | .own h => K h

/-- A limiter that cannot be reached answers with the text of its error. -/
def Outer.Answer : Outer H → Type
  | .receive => Message
  | .send _ => Unit
  | .monotonic => ℚ
  | .uuid4 => String
  | .check _ => Except String Decision
  | .log .. => Unit
  | .own h => K h

/-- How a call of an application ends. -/
inductive Outcome where
  | returned
  | raised (exception : String)
  deriving DecidableEq

abbrev Router := Scope → Proc (Inner H) (Inner.Answer K) Outcome
abbrev App := Scope → Proc (Outer H) (Outer.Answer K) Outcome

variable {K : H → Type}

def await (e : Outer H) : Proc (Outer H) (Outer.Answer K) (Outer.Answer K e) := Proc.perform e

/-- A response gains headers, on its first message and nowhere else. -/
def add_headers (extra : Headers) : Handler (Outer H) (Outer.Answer K) (Outer H) (Outer.Answer K) Unit
  | _, .send (.start status headers) =>
      .forward (.send (.start status (some (headers.getD [] ++ extra)))) fun r => (r, ())
  | _, e => .forward e fun r => (r, ())

def header (name value : String) : Bytes × Bytes := (encode name, encode value)

/-- Wrap `send` so the response gains one header. -/
def add_header (name value : String) (p : Proc (Outer H) (Outer.Answer K) Outcome) :
    Proc (Outer H) (Outer.Answer K) Outcome :=
  interp (add_headers [header name value]) () p

def detail (text : String) : Bytes := encode ("\x7b\"detail\":\"" ++ text ++ "\"\x7d")

def json_headers (payload : Bytes) (headers : List (String × String)) : Headers :=
  [header "content-type" "application/json", header "content-length" (toString payload.length)] ++
    headers.map fun h => header h.1 h.2

/-- Send a JSON response without calling the inner application. -/
def send_json (status : ℕ) (payload : Bytes) (headers : List (String × String)) :
    Proc (Outer H) (Outer.Answer K) Outcome := do
  let _ : Unit ← await (.send (.start status (some (json_headers payload headers))))
  let _ : Unit ← await (.send (.body payload false))
  return .returned

def is_http (scope : Scope) : Bool := scope.type == "http"

/-! ### The paths and the credential -/

def UNAUTHENTICATED : List String := ["/healthz", "/readyz", "/openapi.json", "/docs"]

def UNBUDGETED : List String := UNAUTHENTICATED

def REQUEST_ID_HEADER : String := "X-Request-Id"

/-- The first header of a name, as it came. -/
def raw_header (name : Bytes) (scope : Scope) : Option String :=
  (scope.headers.find? fun h => h.1 == name).map fun h => latin1 h.2

def lower (text : String) : String := String.ofList (text.toList.map Char.toLower)

/-- One request header, stripped, or nothing. -/
def request_header (scope : Scope) (name : String) : String :=
  ((raw_header (encode (lower name)) scope).map strip).getD ""

/-- The `Authorization` header. -/
def authorization (scope : Scope) : Option String := raw_header (encode "authorization") scope

/-- A text up to its first blank, and after it. -/
def partition (text : List Char) : List Char × List Char :=
  (text.takeWhile (· ≠ ' '), (text.dropWhile (· ≠ ' ')).drop 1)

/-- Extract a bearer token. -/
def credential_from : Option String → Except String String
  | none | some "" => .error "no Authorization header"
  | some header =>
      let (scheme, token) := partition header.toList
      let token := strip (String.ofList token)
      if scheme.map Char.toLower ≠ "bearer".toList ∨ token = "" then
        .error "Authorization header is not a non-empty bearer token"
      else .ok token

/-- What the layers read off the process. -/
structure GatewayState where
  request_deadline_s : ℚ
  rate_limit_per_minute : ℕ
  keys : Keys

/-- `SettingsAuthBackend.principal_for`. -/
def GatewayState.principal_for (gateway : GatewayState) (credential : String) : Except String Principal :=
  match gateway.keys credential with
  | some principal => .ok principal
  | none => .error "no configured key matches the presented credential"

/-- Whose credential a request carries. -/
def GatewayState.presented (gateway : GatewayState) (scope : Scope) : Except String Principal := do
  gateway.principal_for (← credential_from (authorization scope))

/-! ### The layers -/

/-- How much of a client-supplied id is kept. -/
def MAX_ID : ℕ := 64

/-- `:.0f` of a number that is not negative: the nearest whole number, the even one of two. -/
def format0 (q : ℚ) : String :=
  let below := ⌊q⌋
  let rest := q - below
  toString (if rest < 1 / 2 ∨ rest = 1 / 2 ∧ below % 2 = 0 then below else below + 1)

def Deadline.remaining_s (deadline : Deadline) (now : ℚ) : ℚ := max 0 (deadline.expires_at - now)

def Scope.set (scope : Scope) (state : State) : Scope := { scope with state := state }

variable (gateway : GatewayState)

/-- Start the request's time budget, outside everything else. -/
def RequestDeadline (app : App K) : App K := fun scope =>
  if ¬ is_http scope ∨ scope.path ∈ UNBUDGETED then app scope
  else do
    let now : ℚ ← await .monotonic
    let deadline : Deadline := ⟨now + gateway.request_deadline_s⟩
    let now : ℚ ← await .monotonic
    add_header "X-Budget-Remaining-Ms" (format0 (deadline.remaining_s now * 1000))
      (app (scope.set { scope.state with deadline := some deadline }))

/-- Give every request an id, and echo it back. -/
def RequestId (app : App K) : App K := fun scope =>
  if ¬ is_http scope then app scope
  else do
    let supplied := request_header scope REQUEST_ID_HEADER
    let request_id : String ←
      if supplied ≠ "" then pure (String.ofList (supplied.toList.take MAX_ID))
      else await .uuid4
    add_header REQUEST_ID_HEADER request_id
      (app (scope.set { scope.state with request_id := some request_id }))

/-- Resolve the bearer credential to a `Principal`, or refuse. -/
def Authenticate (app : App K) : App K := fun scope =>
  if ¬ is_http scope ∨ scope.path ∈ UNAUTHENTICATED then app scope
  else
    match gateway.presented scope with
    | .ok principal => app (scope.set { scope.state with principal := some principal })
    | .error reason => do
        let _ : Unit ← await (.log "rejected an unauthenticated request"
          [("request_id", scope.state.request_id), ("path", some scope.path), ("reason", some reason)])
        send_json 401 (detail "invalid or missing credential") [("WWW-Authenticate", "Bearer")]

/-- Bind the request to exactly one tenant. -/
def Tenancy (app : App K) : App K := fun scope =>
  if ¬ is_http scope then app scope
  else app (scope.set { scope.state with tenant_id := scope.state.principal.map Principal.tenant_id })

/-- The `X-RateLimit-*` trio a client needs to pace itself. -/
def budget (limit : ℕ) (decision : Decision) : List (String × String) :=
  [("X-RateLimit-Limit", toString limit), ("X-RateLimit-Remaining", toString (max 0 decision.remaining)),
    ("X-RateLimit-Reset", toString (max 0 ⌈decision.retry_after_s⌉))]

/-- What the bucket's answer is taken for: an unavailable one allows. -/
def decided (app : App K) (scope : Scope) (principal : Principal) :
    Except String Decision → Proc (Outer H) (Outer.Answer K) Outcome
  | .error reason => do
      let _ : Unit ← await (.log "rate limiter unavailable; allowing the request"
        [("request_id", scope.state.request_id), ("tenant", some principal.tenant_id), ("reason", some reason)])
      app scope
  | .ok decision =>
      let trio := budget gateway.rate_limit_per_minute decision
      if decision.allowed then trio.foldr (fun h p => add_header h.1 h.2 p) (app scope)
      else do
        let _ : Unit ← await (.log "rate limited"
          [("request_id", scope.state.request_id), ("tenant", some principal.tenant_id),
            ("key_id", some principal.key_id)])
        send_json 429 (detail "rate limit exceeded")
          (("Retry-After", toString (max 1 ⌈decision.retry_after_s⌉)) :: trio)

/-- The token bucket, one token a request. -/
def RateLimit (app : App K) : App K := fun scope =>
  if ¬ is_http scope then app scope
  else
    match scope.state.principal with
    | none => app scope
    | some principal => do
        let checked : Except String Decision ← await (.check principal)
        decided gateway app scope principal checked

/-- The bytes a message of a request carries. -/
def Message.bytes : Message → Bytes
  | .request chunk _ => chunk
  | _ => []

/-- `receive`, recording each chunk on the way past; `keep` where the layer wraps it at all. -/
def buffered (keep : Bool) : Handler (Inner H) (Inner.Answer K) (Outer H) (Outer.Answer K) Bytes
  | chunks, .receive => .forward .receive fun m => (m, if keep then chunks ++ m.bytes else chunks)
  | chunks, .collected => .answer chunks chunks
  | chunks, .send message => .forward (.send message) fun r => (r, chunks)
  | chunks, .monotonic => .forward .monotonic fun now => (now, chunks)
  | chunks, .own h => .forward (.own h) fun r => (r, chunks)

/-- Methods that carry no body. -/
def BODYLESS : List String := ["GET", "HEAD", "OPTIONS", "DELETE"]

/-- Hash the request body once: what is read goes past this layer. -/
def BodyHash (router : Router K) : App K := fun scope =>
  if ¬ is_http scope ∨ scope.method ∈ BODYLESS then interp (buffered false) [] (router scope)
  else interp (buffered true) [] (router (scope.set { scope.state with body_hash_of := true }))

/-- The hex digest of a body that is there. -/
def digest (body : Bytes) : Option String :=
  if body = [] then none else some (String.ofList (Lib.Sha256.hex (Lib.Sha256.sha256 body)))

/-- Resolve the hash of what the handler read. -/
def body_hash_of (state : State) : Proc (Inner H) (Inner.Answer K) (Option String) :=
  if state.body_hash_of then do
    let body : Bytes ← Proc.perform (Inner.collected : Inner H)
    return digest body
  else return none

/-- What `apply` adds, in its order, around the innermost; the last is the outermost. -/
def layers : List (App K → App K) :=
  [RateLimit gateway, Tenancy, Authenticate gateway, RequestId, RequestDeadline gateway]

/-- `apply`. -/
def apply (router : Router K) : App K := (layers gateway).foldl (fun app layer => layer app) (BodyHash router)

end GuardMem.Ingress
