import GuardMem.Schemas.Base

/-! Who a tool call speaks for, and how its arguments are read: `tools/context.py` with `parse_as_of`.

    The tenant is the server's configured one; a call's arguments cannot name it. -/

namespace GuardMem

/-- What stops a tool call: a refusal with its reason, or what a store raised. -/
inductive ToolError where
  | ToolRefusedError (message : String)
  | raised (e : Exc)
  deriving DecidableEq

/-- A store's exception passes through a handler. -/
def ToolError.lift {α : Type} : Except Exc α → Except ToolError α
  | .ok a => .ok a
  | .error e => .error (.raised e)

/-- A parsed `datetime`: the instant, unless it is naive, and its `isoformat()`. -/
structure Moment where
  instant : Option Time
  isoformat : String

/-- The readers and printers of Python that the tools call. -/
structure Readers where
  UUID : String → Bool
  fromisoformat : String → Option Moment
  isoformat : Time → String
  repr : String → String
  type_name : Json → String

/-- `mcp_tenant_id` and `mcp_default_namespace`, empty when they are not configured. -/
structure ToolSettings where
  mcp_tenant_id : String
  mcp_default_namespace : String

/-- Whose data a call may touch, and its isolation scope. -/
structure ToolContext where
  tenant_id : TenantId
  «namespace» : Namespace
  deriving DecidableEq

def TENANT_HINT : String :=
  "GM_MCP_TENANT_ID must be a UUID - it is the value row-level security is set " ++
    "from, and the assertion table's tenant_id column is `uuid`. `make seed` " ++
    "prints the demo tenant's id."

variable (py : Readers) (settings : ToolSettings) (arguments : JsonObj)

/-- The call's namespace, or the configured default. -/
def namespace_for : Except ToolError Namespace :=
  match arguments.lookup "namespace" with
  | some (.str given) => .ok given
  | some .null | none =>
      if settings.mcp_default_namespace = "" then .error (.ToolRefusedError
        ("no namespace was given and this server has no default. Pass one in " ++
          "the tool call, or set GM_MCP_DEFAULT_NAMESPACE - MCP_INTEGRATION.md " ++
          "§2.1 makes the namespace default to the server's configured one."))
      else .ok settings.mcp_default_namespace
  | some given => .error (.ToolRefusedError ("namespace must be a string, got " ++ py.type_name given))

/-- Resolve the tenant and namespace for one tool call. -/
def context_for (require_namespace : Bool) : Except ToolError ToolContext := do
  if settings.mcp_tenant_id = "" then
    .error (.ToolRefusedError
      ("this server has no tenant configured, so it will not read or write " ++
        "memory. Set GM_MCP_TENANT_ID. " ++ TENANT_HINT))
  else if !py.UUID settings.mcp_tenant_id then
    .error (.ToolRefusedError
      ("GM_MCP_TENANT_ID is not a UUID: " ++ py.repr settings.mcp_tenant_id ++ ". " ++ TENANT_HINT))
  else
    let ns ← if require_namespace then namespace_for py settings arguments
      else .ok settings.mcp_default_namespace
    .ok ⟨settings.mcp_tenant_id, ns⟩

/-- The instant a read is asked of; a naive one is refused. -/
def parse_as_of : Except ToolError (Option (Time × String)) :=
  match arguments.lookup "as_of" with
  | some .null | none => .ok none
  | some (.str raw) =>
      match py.fromisoformat raw with
      | none => .error (.ToolRefusedError
          ("`as_of` is not a valid ISO-8601 timestamp: " ++ py.repr raw))
      | some ⟨none, _⟩ => .error (.ToolRefusedError
          ("`as_of` must carry a timezone offset, got " ++ py.repr raw ++ ". Every timestamp " ++
            "in the store is timezone-aware and a naive one has no defined instant."))
      | some ⟨some t, isoformat⟩ => .ok (some (t, isoformat))
  | some raw => .error (.ToolRefusedError
      ("`as_of` must be an ISO-8601 string, got " ++ py.type_name raw))

end GuardMem
