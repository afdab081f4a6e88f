import GuardMem.Ingress.Mediation

/-! What follows of every run of the request chain, whatever the router does.

    CORRECT: the router is reached on a probe's path or under the principal of the credential that the
    request carries, and under no other (`reached_run`); a caller whose credential is refused is told the
    same whatever the reason (`refused_alike`); and the hash a handler asks for is that of every byte it
    has read (`body_hash_run`). -/

namespace GuardMem.Ingress

open Lib.Interaction Limits

variable {H : Type} {K : H → Type} {gateway : GatewayState} {router : Router K} {scope : Scope} {state : State}
  {extra : Headers} {t : Trace K} {o : Outcome} {id : String} {arrived : ℚ} {principal : Principal}

/-! ### Reaching the router -/

/-- A call that neither reads the request nor answers it, nor is a handler's own. -/
def Preliminary : Answered (Outer H) (Outer.Answer K) → Prop
  | ⟨.monotonic, _⟩ | ⟨.uuid4, _⟩ | ⟨.check _, _⟩ | ⟨.log _ _, _⟩ => True
  | ⟨.receive, _⟩ | ⟨.send _, _⟩ | ⟨.own _, _⟩ => False

/-- The limiter was asked about a principal, and did not say no. -/
def Allowed (principal : Principal) (front : Trace K) : Prop :=
  ∃ verdict : Except String Decision, ⟨.check principal, verdict⟩ ∈ front ∧
    ∀ decision, verdict = .ok decision → decision.allowed = true

/-- What a handler may be handed: nobody on a probe's path, else the caller and the caller's tenant. -/
def Entitled (gateway : GatewayState) (scope : Scope) (front : Trace K) (state : State) : Prop :=
  (scope.path ∈ UNAUTHENTICATED ∧ state.principal = none ∧ state.tenant_id = none) ∨
    ∃ principal, gateway.presented scope = .ok principal ∧ state.principal = some principal ∧
      state.tenant_id = some principal.tenant_id ∧ Allowed principal front

/-- Why a request is refused: its credential, before the limiter is asked; or the limiter. -/
def Denied (gateway : GatewayState) (scope : Scope) (front : Trace K) (status : ℕ) : Prop :=
  (status = 401 ∧ (∃ reason, gateway.presented scope = .error reason) ∧
      ∀ principal verdict, ⟨.check principal, verdict⟩ ∉ front) ∨
    status = 429 ∧ ∃ principal, ∃ decision : Decision, gateway.presented scope = .ok principal ∧
      decision.allowed = false ∧ ⟨.check principal, .ok decision⟩ ∈ front

/-- The ids that were minted for the request. -/
def minted (t : Trace K) : Trace K :=
  t.filter fun call => match call.1 with
    | .uuid4 => true
    | _ => false

theorem minted_of_named {named : Trace K} (h : Named scope id named) : minted named = named := by
  unfold Named at h
  split at h
  · rw [h.1]
    rfl
  · rw [h]
    rfl

theorem preliminary_of_named {named : Trace K} (h : Named scope id named) :
    (∀ call ∈ named, Preliminary call) ∧ ∀ principal verdict, ⟨.check principal, verdict⟩ ∉ named := by
  unfold Named at h
  split at h
  · obtain ⟨rfl, -⟩ := h
    simp
  · subst h
    refine ⟨by simp [Preliminary], fun principal verdict hmem => ?_⟩
    cases congrArg Sigma.fst (List.mem_singleton.mp hmem)

/-- Everything a request meets before the router, and what it comes to. Its id is the one it brings, cut to
    length, or else the one that is minted for it; every answer and the router's state carry this id. -/
def Met (gateway : GatewayState) (router : Router K) (scope : Scope) (t : Trace K) (o : Outcome) : Prop :=
  ∃ (id : String) (front u : Trace K) (extra : Headers), t = front ++ u ∧
    (∀ call ∈ front, Preliminary call) ∧ Named scope id (minted front) ∧
    header REQUEST_ID_HEADER id ∈ extra ∧
    ((∃ status payload headers, u = refusal status payload headers extra ∧ o = .returned ∧
        Denied gateway scope front status) ∨
      ∃ state, Handles router scope state extra u o ∧ state.request_id = some id ∧
        Entitled gateway scope front state)

theorem met_of_governed {frame : Trace K} (hframe : ∀ call ∈ frame, Preliminary call)
    (hcheck : ∀ principal verdict, ⟨.check principal, verdict⟩ ∉ frame)
    (hnamed : Named scope id (minted frame)) (hid : header REQUEST_ID_HEADER id ∈ extra)
    (h : Governed gateway router scope id arrived extra t o) : Met gateway router scope (frame ++ t) o := by
  -- nothing is minted past the frame
  have hframed : ∀ {more : Trace K}, minted more = [] → Named scope id (minted (frame ++ more)) := by
    intro more hmore
    unfold minted at hnamed hmore ⊢
    rwa [List.filter_append, hmore, List.append_nil]
  rcases h with hreason | ⟨hok, hallowed⟩ | ⟨hok, hallowed, hhandles⟩ | ⟨hok, hhandles⟩
  · rename_i reason
    refine ⟨id, frame ++ [refused_log scope id reason], _, extra, by simp; rfl, ?_, hframed rfl, hid,
      Or.inl ?_⟩
    · exact List.forall_mem_append.mpr ⟨hframe, by simp [Preliminary, refused_log]⟩
    · refine ⟨401, _, _, rfl, rfl, Or.inl ⟨rfl, ⟨reason, hreason⟩, fun principal verdict hmem => ?_⟩⟩
      rcases List.mem_append.mp hmem with hmem | hmem
      · exact hcheck principal verdict hmem
      · cases congrArg Sigma.fst (List.mem_singleton.mp hmem)
  · rename_i principal decision
    refine ⟨id, frame ++ [⟨.check principal, .ok decision⟩, limited_log id principal], _, extra, by simp; rfl,
      ?_, hframed rfl, hid, Or.inl ?_⟩
    · exact List.forall_mem_append.mpr ⟨hframe, by simp [Preliminary, limited_log]⟩
    · exact ⟨429, _, _, rfl, rfl, Or.inr ⟨rfl, principal, decision, hok, hallowed, by simp⟩⟩
  · rename_i principal decision u
    refine ⟨id, frame ++ [⟨.check principal, .ok decision⟩], u, _, by simp, ?_, hframed rfl,
      List.mem_append_right _ hid, Or.inr ⟨_, hhandles, rfl, Or.inr ⟨principal, hok, rfl, rfl, ?_⟩⟩⟩
    · exact List.forall_mem_append.mpr ⟨hframe, by simp [Preliminary]⟩
    · refine ⟨.ok decision, by simp, fun d hd => ?_⟩
      obtain rfl := Except.ok.inj hd
      exact hallowed
  · rename_i principal reason u
    refine ⟨id, frame ++ [⟨.check principal, .error reason⟩, unavailable_log id principal reason], u, extra,
      by simp, ?_, hframed rfl, hid, Or.inr ⟨_, hhandles, rfl, Or.inr ⟨principal, hok, rfl, rfl, ?_⟩⟩⟩
    · exact List.forall_mem_append.mpr ⟨hframe, by simp [Preliminary, unavailable_log]⟩
    · exact ⟨.error reason, by simp, fun d hd => by cases hd⟩

/-- Every run goes by what the request meets. -/
theorem met_of_run (hhttp : scope.type = "http") (hfresh : scope.state = {})
    (h : Run (apply gateway router scope) t o) : Met gateway router scope t o := by
  by_cases hpath : scope.path ∈ UNAUTHENTICATED
  · obtain ⟨id, named, u, rfl, hnamed, hhandles⟩ := (run_apply_exempt hhttp hfresh hpath).mp h
    exact ⟨id, named, u, _, rfl, (preliminary_of_named hnamed).1, (minted_of_named hnamed).symm ▸ hnamed,
      List.mem_singleton_self _, Or.inr ⟨_, hhandles, rfl, Or.inl ⟨hpath, rfl, rfl⟩⟩⟩
  · obtain ⟨arrived, now, id, named, u, rfl, hnamed, hgoverned⟩ := (run_apply hhttp hfresh hpath).mp h
    obtain ⟨hframe, hcheck⟩ := preliminary_of_named hnamed
    have hclock : ∀ call ∈ (⟨.monotonic, arrived⟩ :: ⟨.monotonic, now⟩ :: named : Trace K),
        Preliminary call := by
      simpa [List.forall_mem_cons, Preliminary] using hframe
    have hunasked : ∀ principal verdict, ⟨.check principal, verdict⟩ ∉
        (⟨.monotonic, arrived⟩ :: ⟨.monotonic, now⟩ :: named : Trace K) := by
      intro principal verdict hmem
      simp only [List.mem_cons, Sigma.mk.injEq, reduceCtorEq, false_and, false_or] at hmem
      exact hcheck principal verdict hmem
    have hminted : minted (⟨.monotonic, arrived⟩ :: ⟨.monotonic, now⟩ :: named : Trace K) = named :=
      minted_of_named hnamed
    simpa using met_of_governed hclock hunasked (hminted.symm ▸ hnamed) List.mem_cons_self hgoverned

/-- CORRECT: whatever a request carries and whatever is behind the chain, the router runs on a probe's
    path with nobody, or under the principal its bearer credential is configured with and that
    principal's tenant, once the limiter was asked about this principal and did not say no; else the
    request is answered without being read. Either answer carries the id that the request brought, or
    that was minted for it. -/
theorem reached_run (hhttp : scope.type = "http") (hfresh : scope.state = {})
    (h : Run (apply gateway router scope) t o) : Met gateway router scope t o :=
  met_of_run hhttp hfresh h

/-! ### One key, one request -/

/-- A gateway with one key, of one tenant. -/
def one_key : GatewayState where
  request_deadline_s := 2
  rate_limit_per_minute := 60
  keys credential := if credential = "sk-acme-1" then some ⟨"acme", "sk-acme-", ["memory:read"]⟩ else none

/-- A write under a header. -/
def write_with (authorization : String) : Scope where
  type := "http"
  path := "/memory/propose"
  method := "POST"
  headers := [(encode "authorization", encode authorization)]

/-- Nothing but ASGI. -/
abbrev NoCalls : Empty → Type := Empty.elim

/-- A router that reads one message, asks for its hash and answers. -/
def reader (scope : Scope) : Proc (Inner Empty) (Inner.Answer NoCalls) Outcome :=
  Proc.perform (.receive : Inner Empty) >>= fun _ => body_hash_of scope.state >>= fun _ =>
    .call (.send (.start 202 none)) fun _ => .call (.send (.body [] false)) fun _ => .ret .returned

/-- What answers it: a body of two bytes, and a limiter that allows. -/
def answers : (e : Outer Empty) → Outer.Answer NoCalls e
  | .receive => .request [104, 105] false
  | .send _ => ()
  | .monotonic => (0 : ℚ)
  | .uuid4 => ""
  | .check _ => .ok ⟨true, 9, 0⟩
  | .log _ _ => ()

theorem reached_run_acme : ∃ t o, Run (apply one_key reader (write_with "Bearer sk-acme-1")) t o ∧
    Met one_key reader (write_with "Bearer sk-acme-1") t o := by
  obtain ⟨t, o, h⟩ := Run.exists answers (apply one_key reader (write_with "Bearer sk-acme-1"))
  exact ⟨t, o, h, reached_run rfl rfl h⟩

/-! ### Refused alike -/

/-- What leaves the process otherwise than through its log. -/
def unlogged (t : Trace K) : Trace K :=
  t.filter fun call => match call.1 with
    | .log _ _ => false
    | _ => true

/-- CORRECT: a caller whose credential is absent, malformed or unknown is told the same, and nothing else
    is done for it: whatever differs between two such requests but the id they bring, and whatever is
    behind the chain, the one can go exactly as the other but for what is logged. -/
theorem refused_alike {scope' : Scope} {router' : Router K} {reason reason' : String}
    (hhttp : scope.type = "http") (hhttp' : scope'.type = "http") (hfresh : scope.state = {})
    (hfresh' : scope'.state = {}) (hpath : scope.path ∉ UNAUTHENTICATED)
    (hpath' : scope'.path ∉ UNAUTHENTICATED)
    (hid : request_header scope' REQUEST_ID_HEADER = request_header scope REQUEST_ID_HEADER)
    (hreason : gateway.presented scope = .error reason)
    (hreason' : gateway.presented scope' = .error reason')
    (h : Run (apply gateway router scope) t o) :
    ∃ t', Run (apply gateway router' scope') t' o ∧ unlogged t' = unlogged t := by
  obtain ⟨arrived, now, id, named, u, rfl, hnamed, hgoverned⟩ := (run_apply hhttp hfresh hpath).mp h
  rcases hgoverned with hwhy | ⟨hok, -⟩ | ⟨hok, -, -⟩ | ⟨hok, -⟩
  · refine ⟨_, (run_apply hhttp' hfresh' hpath').mpr ⟨arrived, now, id, named, _, rfl, ?_, .refused hreason'⟩, ?_⟩
    · unfold Named at hnamed ⊢
      rwa [hid]
    · simp [unlogged, List.filter_append, refused_log]
  all_goals exact absurd (hreason.symm.trans hok) (by simp)

theorem write_path (authorization : String) : (write_with authorization).path ∉ UNAUTHENTICATED := by
  have h : "/memory/propose" ∉ UNAUTHENTICATED := by decide
  exact h

theorem no_request_id (authorization : String) :
    request_header (write_with authorization) REQUEST_ID_HEADER = "" := by
  have hname : (encode "authorization" == encode (lower REQUEST_ID_HEADER)) = false := by decide
  simp [request_header, raw_header, write_with, hname]

theorem presented_unknown : one_key.presented (write_with "Bearer sk-other") =
    .error "no configured key matches the presented credential" := rfl

theorem presented_malformed : one_key.presented (write_with "sk-acme-1") =
    .error "Authorization header is not a non-empty bearer token" := rfl

theorem refused_alike_malformed : ∃ t o, Run (apply one_key reader (write_with "Bearer sk-other")) t o ∧
    ∃ t', Run (apply one_key reader (write_with "sk-acme-1")) t' o ∧ unlogged t' = unlogged t := by
  obtain ⟨t, o, h⟩ := Run.exists answers (apply one_key reader (write_with "Bearer sk-other"))
  exact ⟨t, o, h, @refused_alike _ _ one_key reader (write_with "Bearer sk-other") t o
    (write_with "sk-acme-1") reader _ _ rfl rfl rfl rfl (write_path _) (write_path _)
    ((no_request_id _).trans (no_request_id _).symm) presented_unknown presented_malformed h⟩

/-! ### What has been read -/

/-- The bytes of the request that a router's calls were answered with. -/
def received (r : Routed K) : Bytes :=
  r.flatMap fun call => match call with
    | ⟨.receive, m⟩ => Message.bytes m
    | _ => []

/-- The bytes of the request that left the server for the chain. -/
def read (t : Trace K) : Bytes :=
  t.flatMap fun call => match call with
    | ⟨.receive, m⟩ => Message.bytes m
    | _ => []

theorem read_of_preliminary (h : ∀ call ∈ t, Preliminary call) : read t = [] := by
  refine List.flatMap_eq_nil_iff.mpr fun call hcall => ?_
  have hpre := h call hcall
  rcases call with ⟨e, x⟩
  cases e <;> first | rfl | exact absurd hpre id

@[simp] theorem read_append (t u : Trace K) : read (t ++ u) = read t ++ read u := List.flatMap_append

@[simp] theorem received_append (r r' : Routed K) : received (r ++ r') = received r ++ received r' :=
  List.flatMap_append

/-- Nothing that is read goes past the wrappers unrecorded, nor is anything made up. -/
theorem shown_bytes {keep : Bool} {chunks z : Bytes} {r : Routed K}
    (h : Shows (guarded keep extra) chunks r t z) :
    read t = received r ∧ z = if keep then chunks ++ received r else chunks := by
  induction h with
  | nil s => simp [read, received]
  | @answer s s' z e x r t hh hs ih =>
      rcases e with _ | m | _ | _ | _
      case collected =>
        obtain ⟨rfl, rfl⟩ := Handled.answer.inj hh
        exact ih
      case send => cases m <;> cases hh
      all_goals cases hh
  | @forward s z e e' back x r t hh hs ih =>
      rcases e with _ | m | _ | _ | _
      case receive =>
        obtain ⟨rfl, rfl⟩ := Handled.forward.inj hh
        obtain ⟨hread, hz⟩ := ih
        refine ⟨?_, ?_⟩
        · show Message.bytes x ++ read t = Message.bytes x ++ received r
          rw [hread]
        · rw [hz]
          show _ = if keep then s ++ (Message.bytes x ++ received r) else s
          cases keep <;> simp
      case send =>
        cases m <;> (obtain ⟨rfl, rfl⟩ := Handled.forward.inj hh; exact ih)
      case collected => cases hh
      all_goals (obtain ⟨rfl, rfl⟩ := Handled.forward.inj hh; exact ih)

/-- What the callable answers is what was received before it was called. -/
theorem collected_answer {r r' : Routed K} {x z : Bytes}
    (h : Shows (guarded true extra) [] (r ++ ⟨.collected, x⟩ :: r') t z) : x = received r := by
  obtain ⟨m, v, v', -, hbefore, hafter⟩ := shows_append h
  obtain ⟨-, hm⟩ := shown_bytes hbefore
  rcases hafter with _ | ⟨hh, -⟩ | ⟨_, hh, -⟩
  · obtain ⟨rfl, -⟩ := Handled.answer.inj hh
    simpa using hm
  · cases hh

theorem run_body_hash_of {A : Type} {f : Option String → Proc (Inner H) (Inner.Answer K) A} {r : Routed K}
    {a : A} (hflag : state.body_hash_of = true) (h : Run (body_hash_of state >>= f) r a) :
    ∃ x r', r = ⟨.collected, x⟩ :: r' ∧ Run (f (digest x)) r' a := by
  rw [body_hash_of, if_pos hflag] at h
  exact run_call.mp h

theorem unread_of_denied {status : ℕ} {payload : Bytes} {headers : List (String × String)}
    {front : Trace K} (hfront : ∀ call ∈ front, Preliminary call) :
    ∀ call ∈ front ++ refusal status payload headers extra, call.1 ≠ .receive := by
  refine List.forall_mem_append.mpr ⟨fun call hcall hreceive => ?_, by simp [refusal]⟩
  have hpre := hfront call hcall
  rcases call with ⟨e, x⟩
  obtain rfl : e = .receive := hreceive
  exact hpre

/-- CORRECT: on a method that carries a body the hash that a handler resolves is the digest of every byte
    it has read so far, whatever it read by and whatever it does after; a request that is not handled is
    not read at all. -/
theorem body_hash_run {A : Type} {before : Scope → Proc (Inner H) (Inner.Answer K) A}
    {after : Scope → A → Option String → Proc (Inner H) (Inner.Answer K) Outcome}
    (hhttp : scope.type = "http") (hfresh : scope.state = {}) (hmethod : scope.method ∉ BODYLESS)
    (h : Run (apply gateway
      (fun scope => before scope >>= fun a => body_hash_of scope.state >>= after scope a) scope) t o) :
    (∀ call ∈ t, call.1 ≠ .receive) ∨ ∃ state r₁ a r₂, Run (before (scope.handed state)) r₁ a ∧
      Run (after (scope.handed state) a (digest (received r₁))) r₂ o ∧
        read t = received r₁ ++ received r₂ := by
  obtain ⟨id, front, u, extra, rfl, hfront, -, -, hrest⟩ := met_of_run hhttp hfresh h
  rcases hrest with ⟨status, payload, headers, rfl, -, -⟩ | ⟨state, ⟨r, z, hrun, hshows⟩, -, -⟩
  · exact Or.inl (unread_of_denied hfront)
  · have hkeep : decide (scope.method ∉ BODYLESS) = true := decide_eq_true hmethod
    have hflag : (scope.handed state).state.body_hash_of = true := hkeep
    obtain ⟨r₁, r, a, rfl, hbefore, hrun⟩ := run_bind.mp hrun
    obtain ⟨x, r₂, rfl, hafter⟩ := run_body_hash_of hflag hrun
    rw [hkeep] at hshows
    obtain rfl := collected_answer hshows
    refine Or.inr ⟨state, r₁, a, r₂, hbefore, hafter, ?_⟩
    obtain ⟨hread, -⟩ := shown_bytes hshows
    rw [read_append, read_of_preliminary hfront, hread, received_append]
    rfl

theorem body_hash_run_acme : ∃ t o, Run (apply one_key reader (write_with "Bearer sk-acme-1")) t o ∧
    ((∀ call ∈ t, call.1 ≠ .receive) ∨ ∃ (r₁ : Routed NoCalls) (a : Message)
      (r₂ : Routed NoCalls), Run (Proc.perform (.receive : Inner Empty)) r₁ a ∧
        read t = received r₁ ++ received r₂) := by
  obtain ⟨t, o, h⟩ := Run.exists answers (apply one_key reader (write_with "Bearer sk-acme-1"))
  refine ⟨t, o, h, ?_⟩
  rcases @body_hash_run Empty NoCalls one_key (write_with "Bearer sk-acme-1") t o Message
      (fun _ => Proc.perform (.receive : Inner Empty)) _ rfl rfl (by decide) h with
    hunread | ⟨state, r₁, a, r₂, hbefore, -, hread⟩
  · exact Or.inl hunread
  · exact Or.inr ⟨r₁, a, r₂, hbefore, hread⟩

end GuardMem.Ingress
