import GuardMem.Ingress.Chain

/-! What the request chain lets through: every run of it, around any router. -/

namespace GuardMem.Ingress

open Lib.Interaction Limits

variable {H : Type} {K : H → Type}

/-- The calls of a run of the chain. -/
abbrev Trace (K : H → Type) := List (Answered (Outer H) (Outer.Answer K))

/-- The calls of a run of the router. -/
abbrev Routed (K : H → Type) := List (Answered (Inner H) (Inner.Answer K))

/-! ### All the wrappers as one -/

/-- What the layers wrapped around the router's calls do with them, together. -/
def guarded (keep : Bool) (extra : Headers) :
    Handler (Inner H) (Inner.Answer K) (Outer H) (Outer.Answer K) Bytes
  | chunks, .receive => .forward .receive fun m => (m, if keep then chunks ++ m.bytes else chunks)
  | chunks, .collected => .answer chunks chunks
  | chunks, .send (.start status headers) =>
      .forward (.send (.start status (some (headers.getD [] ++ extra)))) fun r => (r, chunks)
  | chunks, .send message => .forward (.send message) fun r => (r, chunks)
  | chunks, .monotonic => .forward .monotonic fun now => (now, chunks)
  | chunks, .own h => .forward (.own h) fun r => (r, chunks)

/-- A first message, and what is done on its answer. -/
def begin_response (status : ℕ) (headers : Headers) (next : Unit → Proc (Outer H) (Outer.Answer K) Outcome) :
    Proc (Outer H) (Outer.Answer K) Outcome :=
  .call (.send (.start status (some headers))) next

/-- Headers added on the way out of headers added are added behind them. -/
theorem add_headers_add_headers (first second : Headers) (p : Proc (Outer H) (Outer.Answer K) Outcome) :
    interp (add_headers second) () (interp (add_headers first) () p) =
      interp (add_headers (first ++ second)) () p := by
  induction p with
  | ret a => rfl
  | call e next ih =>
      rcases e with _ | m | _ | _ | _ | _ | _
      case send =>
        rcases m with _ | _ | ⟨status, headers⟩ | _ | _
        case start =>
          show begin_response status (headers.getD [] ++ first ++ second) _ =
            begin_response status (headers.getD [] ++ (first ++ second)) _
          rw [List.append_assoc]
          exact congrArg _ (funext ih)
        all_goals exact congrArg _ (funext ih)
      all_goals exact congrArg _ (funext ih)

/-- Headers of an outer layer, where there is one. -/
def wrapped : Option Headers → Proc (Outer H) (Outer.Answer K) Outcome → Proc (Outer H) (Outer.Answer K) Outcome
  | none, p => p
  | some outer, p => interp (add_headers outer) () p

theorem wrapped_add_header (outer : Option Headers) (name value : String)
    (p : Proc (Outer H) (Outer.Answer K) Outcome) :
    wrapped outer (add_header name value p) =
      interp (add_headers (header name value :: outer.getD [])) () p := by
  cases outer with
  | none => rfl
  | some outer => exact add_headers_add_headers _ _ _

theorem wrapped_uuid4 (outer : Option Headers) (next : String → Proc (Outer H) (Outer.Answer K) Outcome) :
    wrapped outer (.call .uuid4 next) = .call .uuid4 fun id => wrapped outer (next id) := by
  cases outer <;> rfl

/-- Headers added around what reads and records. -/
theorem add_headers_buffered (keep : Bool) (extra : Headers) (chunks : Bytes)
    (p : Proc (Inner H) (Inner.Answer K) Outcome) :
    interp (add_headers extra) () (interp (buffered keep) chunks p) =
      interp (guarded keep extra) chunks p := by
  induction p generalizing chunks with
  | ret a => rfl
  | call e next ih =>
      rcases e with _ | m | _ | _ | _
      case send => cases m <;> exact congrArg _ (funext fun r => ih r chunks)
      case collected => exact ih chunks chunks
      all_goals exact congrArg _ (funext fun r => ih r _)

/-! ### What may happen -/

/-- How a request came to its id. -/
def Named (scope : Scope) (id : String) (t : Trace K) : Prop :=
  if request_header scope REQUEST_ID_HEADER ≠ "" then
    t = [] ∧ id = String.ofList ((request_header scope REQUEST_ID_HEADER).toList.take MAX_ID)
  else t = [⟨.uuid4, id⟩]

/-- The headers of the two outermost layers. -/
def framing (gateway : GatewayState) (id : String) (arrived now : ℚ) : Headers :=
  [header REQUEST_ID_HEADER id,
    header "X-Budget-Remaining-Ms"
      (format0 (Deadline.remaining_s ⟨arrived + gateway.request_deadline_s⟩ now * 1000))]

/-- A refusal, as it is sent. -/
def refusal (status : ℕ) (payload : Bytes) (headers : List (String × String)) (extra : Headers) : Trace K :=
  [⟨.send (.start status (some (json_headers payload headers ++ extra))), ()⟩,
    ⟨.send (.body payload false), ()⟩]

/-- The scope a handler sees. -/
def Scope.handed (scope : Scope) (state : State) : Scope :=
  scope.set { state with body_hash_of := scope.method ∉ BODYLESS }

/-- What the router made of a request, as it is shown. -/
def Handles (router : Router K) (scope : Scope) (state : State) (extra : Headers) (t : Trace K)
    (o : Outcome) : Prop :=
  ∃ (r : Routed K) (z : Bytes), Run (router (scope.handed state)) r o ∧
    Shows (guarded (scope.method ∉ BODYLESS) extra) [] r t z

/-- The state of an admitted request. -/
def admitted (gateway : GatewayState) (id : String) (arrived : ℚ) (principal : Principal) : State where
  deadline := some ⟨arrived + gateway.request_deadline_s⟩
  request_id := some id
  principal := some principal
  tenant_id := some principal.tenant_id

/-- The trio as it is appended: the last wrapped is the first to be reached. -/
def paced (gateway : GatewayState) (decision : Decision) : Headers :=
  ((budget gateway.rate_limit_per_minute decision).map fun h => header h.1 h.2).reverse

def refused_log (scope : Scope) (id reason : String) : Answered (Outer H) (Outer.Answer K) :=
  ⟨.log "rejected an unauthenticated request"
    [("request_id", some id), ("path", some scope.path), ("reason", some reason)], ()⟩

def limited_log (id : String) (principal : Principal) : Answered (Outer H) (Outer.Answer K) :=
  ⟨.log "rate limited"
    [("request_id", some id), ("tenant", some principal.tenant_id), ("key_id", some principal.key_id)], ()⟩

def unavailable_log (id : String) (principal : Principal) (reason : String) :
    Answered (Outer H) (Outer.Answer K) :=
  ⟨.log "rate limiter unavailable; allowing the request"
    [("request_id", some id), ("tenant", some principal.tenant_id), ("reason", some reason)], ()⟩

/-- What becomes of a request behind its deadline and its id. -/
inductive Governed (gateway : GatewayState) (router : Router K) (scope : Scope) (id : String) (arrived : ℚ)
    (extra : Headers) : Trace K → Outcome → Prop
  | refused {reason : String} : gateway.presented scope = .error reason →
      Governed gateway router scope id arrived extra
        (refused_log scope id reason ::
          refusal 401 (detail "invalid or missing credential") [("WWW-Authenticate", "Bearer")] extra)
        .returned
  | limited {principal : Principal} {decision : Decision} :
      gateway.presented scope = .ok principal → decision.allowed = false →
      Governed gateway router scope id arrived extra
        (⟨.check principal, .ok decision⟩ :: limited_log id principal ::
          refusal 429 (detail "rate limit exceeded")
            (("Retry-After", toString (max 1 ⌈decision.retry_after_s⌉)) ::
              budget gateway.rate_limit_per_minute decision) extra)
        .returned
  | handled {principal : Principal} {decision : Decision} {t : Trace K} {o : Outcome} :
      gateway.presented scope = .ok principal → decision.allowed = true →
      Handles router scope (admitted gateway id arrived principal) (paced gateway decision ++ extra) t o →
      Governed gateway router scope id arrived extra (⟨.check principal, .ok decision⟩ :: t) o
  | unlimited {principal : Principal} {reason : String} {t : Trace K} {o : Outcome} :
      gateway.presented scope = .ok principal →
      Handles router scope (admitted gateway id arrived principal) extra t o →
      Governed gateway router scope id arrived extra
        (⟨.check principal, .error reason⟩ :: unavailable_log id principal reason :: t) o

/-! ### Layer by layer -/

variable {gateway : GatewayState} {router : Router K} {scope : Scope} {state : State} {extra : Headers}
  {t : Trace K} {o : Outcome} {id : String} {arrived : ℚ} {principal : Principal}

/-- A refusal as a program. -/
def refuse (status : ℕ) (payload : Bytes) (headers : Headers) : Proc (Outer H) (Outer.Answer K) Outcome :=
  begin_response status headers fun _ => .call (.send (.body payload false)) fun _ => .ret .returned

theorem run_refuse {status : ℕ} {payload : Bytes} {headers : Headers} :
    Run (refuse status payload headers) t o ↔
      t = [⟨.send (.start status (some headers)), ()⟩, ⟨.send (.body payload false), ()⟩] ∧
        o = .returned := by
  constructor
  · intro h
    obtain ⟨_, u, ht, hbody⟩ := run_call.mp h
    obtain ⟨_, v, hu, hend⟩ := run_call.mp hbody
    obtain ⟨hv, ho⟩ := run_ret.mp hend
    subst ht hu hv
    exact ⟨rfl, ho⟩
  · rintro ⟨rfl, rfl⟩
    exact run_call.mpr ⟨(), _, rfl, run_call.mpr ⟨(), _, rfl, .ret _⟩⟩

theorem run_send_json {status : ℕ} {payload : Bytes} {headers : List (String × String)} :
    Run (interp (add_headers extra) () (send_json status payload headers)) t o ↔
      t = refusal status payload headers extra ∧ o = .returned := by
  have h : interp (add_headers extra) () (send_json (K := K) status payload headers) =
      refuse status payload (json_headers payload headers ++ extra) := rfl
  rw [h, run_refuse]
  rfl

/-- What the innermost layer and the router do, inside of the headers. -/
theorem run_body_hash {router : Router K} (hhttp : scope.type = "http") (hflag : state.body_hash_of = false) :
    Run (interp (add_headers extra) () (BodyHash router (scope.set state))) t o ↔
      Handles router scope state extra t o := by
  have hbody : BodyHash router (scope.set state) =
      interp (buffered (scope.method ∉ BODYLESS)) [] (router (scope.handed state)) := by
    by_cases hmethod : scope.method ∈ BODYLESS
    · have hstate : state = { state with body_hash_of := false } := by rw [← hflag]
      simp only [BodyHash, Scope.set, is_http, hhttp, hmethod, Scope.handed, not_true, decide_false]
      rw [← hstate]
      rfl
    · simp [BodyHash, Scope.set, is_http, hhttp, hmethod, Scope.handed]
  rw [hbody, add_headers_buffered, run_interp]
  rfl

/-- The trio around a program is its headers, the last first. -/
theorem foldr_add_header (items : List (String × String)) (p : Proc (Outer H) (Outer.Answer K) Outcome) :
    interp (add_headers extra) () (items.foldr (fun h p => add_header h.1 h.2 p) p) =
      interp (add_headers ((items.map fun h => header h.1 h.2).reverse ++ extra)) () p := by
  induction items generalizing extra with
  | nil => rfl
  | cons h items ih =>
      rw [List.foldr_cons, add_header, add_headers_add_headers, ih, List.map_cons, List.reverse_cons]
      simp

theorem http_of_set (hhttp : scope.type = "http") (state : State) : ¬ ¬ is_http (scope.set state) = true := by
  simp [is_http, Scope.set, hhttp]

/-- The limiter, inside of the headers. -/
theorem run_rate_limit (hhttp : scope.type = "http") :
    Run (interp (add_headers extra) ()
        (RateLimit gateway (BodyHash router) (scope.set (admitted gateway id arrived principal)))) t o ↔
      (∃ decision u, t = ⟨.check principal, .ok decision⟩ :: u ∧
        if decision.allowed then
          Handles router scope (admitted gateway id arrived principal) (paced gateway decision ++ extra) u o
        else u = limited_log id principal :: refusal 429 (detail "rate limit exceeded")
            (("Retry-After", toString (max 1 ⌈decision.retry_after_s⌉)) ::
              budget gateway.rate_limit_per_minute decision) extra ∧ o = .returned) ∨
      ∃ reason u, t = ⟨.check principal, .error reason⟩ :: unavailable_log id principal reason :: u ∧
        Handles router scope (admitted gateway id arrived principal) extra u o := by
  have hlayer : RateLimit gateway (BodyHash router) (scope.set (admitted gateway id arrived principal)) =
      .call (.check principal) (decided gateway (BodyHash router)
        (scope.set (admitted gateway id arrived principal)) principal) := if_neg (http_of_set hhttp _)
  have hbody : ∀ {extra : Headers} {u : Trace K}, Run (interp (add_headers extra) () (BodyHash router
      (scope.set (admitted gateway id arrived principal)))) u o ↔
        Handles router scope (admitted gateway id arrived principal) extra u o := run_body_hash hhttp rfl
  rw [hlayer]
  refine run_call.trans ⟨?_, ?_⟩
  · rintro ⟨checked, u, rfl, h⟩
    rcases checked with reason | decision
    · obtain ⟨⟨⟩, v, rfl, hrest⟩ := run_call.mp h
      exact Or.inr ⟨reason, v, rfl, hbody.mp hrest⟩
    · refine Or.inl ⟨decision, u, rfl, ?_⟩
      dsimp only [decided] at h
      split at h
      · rename_i hallowed
        rw [foldr_add_header] at h
        rw [if_pos hallowed]
        exact hbody.mp h
      · rename_i hallowed
        rw [if_neg hallowed]
        obtain ⟨⟨⟩, v, rfl, hrest⟩ := run_call.mp h
        obtain ⟨rfl, rfl⟩ := run_send_json.mp hrest
        exact ⟨rfl, rfl⟩
  · rintro (⟨decision, u, rfl, h⟩ | ⟨reason, u, rfl, h⟩)
    · refine ⟨.ok decision, u, rfl, ?_⟩
      dsimp only [decided]
      split at h
      · rename_i hallowed
        rw [if_pos hallowed, foldr_add_header]
        exact hbody.mpr h
      · rename_i hallowed
        obtain ⟨rfl, rfl⟩ := h
        rw [if_neg hallowed]
        exact run_call.mpr ⟨(), _, rfl, run_send_json.mpr ⟨rfl, rfl⟩⟩
    · exact ⟨.error reason, _, rfl, run_call.mpr ⟨(), u, rfl, hbody.mpr h⟩⟩

theorem run_authenticate (hhttp : scope.type = "http") (hpath : scope.path ∉ UNAUTHENTICATED) :
    Run (interp (add_headers extra) ()
        (Authenticate gateway (Tenancy (RateLimit gateway (BodyHash router)))
          (scope.set { deadline := some ⟨arrived + gateway.request_deadline_s⟩, request_id := some id }))) t o ↔
      Governed gateway router scope id arrived extra t o := by
  have hgate : ∀ state : State, ¬ (¬ is_http (scope.set state) = true ∨
      (scope.set state).path ∈ UNAUTHENTICATED) :=
    fun state => not_or.mpr ⟨http_of_set hhttp state, hpath⟩
  rw [Authenticate, if_neg (hgate _)]
  have hpresented : ∀ state : State, gateway.presented (scope.set state) = gateway.presented scope :=
    fun _ => rfl
  rw [hpresented]
  rcases hp : gateway.presented scope with reason | principal
  · constructor
    · intro h
      obtain ⟨⟨⟩, u, rfl, hrest⟩ := run_call.mp h
      obtain ⟨rfl, rfl⟩ := run_send_json.mp hrest
      exact .refused hp
    · intro h
      rcases h with hreason | ⟨hok, -⟩ | ⟨hok, -, -⟩ | ⟨hok, -⟩
      · obtain rfl := Except.error.inj (hp.symm.trans hreason)
        exact run_call.mpr ⟨(), _, rfl, run_send_json.mpr ⟨rfl, rfl⟩⟩
      all_goals exact absurd (hp.symm.trans hok) (by simp)
  · have hlayers : Tenancy (RateLimit gateway (BodyHash router))
          (scope.set { (admitted gateway id arrived principal) with tenant_id := none }) =
        RateLimit gateway (BodyHash router) (scope.set (admitted gateway id arrived principal)) := by
      rw [Tenancy, if_neg (http_of_set hhttp _)]
      rfl
    have hrun := @run_rate_limit H K gateway router scope extra t o id arrived principal hhttp
    rw [← hlayers] at hrun
    refine hrun.trans ⟨?_, fun h => ?_⟩
    · rintro (⟨decision, u, rfl, h⟩ | ⟨reason, u, rfl, h⟩)
      · split at h
        · exact .handled hp ‹_› h
        · obtain ⟨rfl, rfl⟩ := h
          exact .limited hp (by simpa using ‹¬ decision.allowed = true›)
      · exact .unlimited hp h
    · rcases h with hreason | ⟨hok, hallowed⟩ | ⟨hok, hallowed, h⟩ | ⟨hok, h⟩
      · exact absurd (hp.symm.trans hreason) (by simp)
      all_goals obtain rfl := Except.ok.inj (hp.symm.trans hok)
      · exact Or.inl ⟨_, _, rfl, by rw [hallowed]; exact ⟨rfl, rfl⟩⟩
      · exact Or.inl ⟨_, _, rfl, by rw [hallowed]; exact h⟩
      · exact Or.inr ⟨_, _, rfl, h⟩

theorem named_minted (hid : ¬ request_header scope REQUEST_ID_HEADER ≠ "") (id : String) :
    Named scope id ([⟨.uuid4, id⟩] : Trace K) := by
  rw [Named, if_neg hid]

/-- An id, and the rest of the chain under it. -/
theorem run_request_id {app : App K} (hhttp : scope.type = "http") (outer : Option Headers) :
    Run (wrapped outer (RequestId app (scope.set state))) t o ↔
      ∃ id named u, t = named ++ u ∧ Named scope id named ∧
        Run (interp (add_headers (header REQUEST_ID_HEADER id :: outer.getD [])) ()
          (app (scope.set { state with request_id := some id }))) u o := by
  have hunder : ∀ id : String, wrapped outer (add_header REQUEST_ID_HEADER id
      (app (scope.set { state with request_id := some id }))) =
      interp (add_headers (header REQUEST_ID_HEADER id :: outer.getD [])) ()
        (app (scope.set { state with request_id := some id })) :=
    fun id => wrapped_add_header outer _ _ _
  rw [RequestId, if_neg (http_of_set hhttp _)]
  dsimp only
  have hsupplied : request_header (scope.set state) REQUEST_ID_HEADER =
      request_header scope REQUEST_ID_HEADER := rfl
  rw [hsupplied]
  by_cases hid : request_header scope REQUEST_ID_HEADER ≠ ""
  · rw [if_pos hid]
    obtain ⟨id, hcut⟩ : ∃ id, id =
        String.ofList ((request_header scope REQUEST_ID_HEADER).toList.take MAX_ID) := ⟨_, rfl⟩
    rw [← hcut]
    constructor
    · intro h
      refine ⟨id, [], t, rfl, ?_, hunder id ▸ h⟩
      rw [Named, if_pos hid]
      exact ⟨rfl, hcut⟩
    · rintro ⟨id', named, u, rfl, hnamed, h⟩
      rw [Named, if_pos hid] at hnamed
      obtain ⟨rfl, hid'⟩ := hnamed
      rw [hid', ← hcut, ← hunder] at h
      exact h
  · rw [if_neg hid]
    refine Iff.trans (Eq.to_iff (congrArg (Run · t o) (wrapped_uuid4 outer fun id =>
      add_header REQUEST_ID_HEADER id (app (scope.set { state with request_id := some id }))))) ?_
    constructor
    · intro h
      obtain ⟨id, u, rfl, hrest⟩ := run_call.mp h
      exact ⟨id, [⟨.uuid4, id⟩], u, rfl, named_minted hid id, hunder id ▸ hrest⟩
    · rintro ⟨id, named, u, rfl, hnamed, h⟩
      rw [Named, if_neg hid] at hnamed
      subst hnamed
      refine run_call.mpr ⟨id, u, rfl, ?_⟩
      rw [← hunder] at h
      exact h

/-! ### The whole chain -/

/-- The probes: no budget, no principal and no limit, but an id. -/
theorem run_apply_exempt (hhttp : scope.type = "http") (hfresh : scope.state = {})
    (hpath : scope.path ∈ UNAUTHENTICATED) :
    Run (apply gateway router scope) t o ↔ ∃ id named u, t = named ++ u ∧ Named scope id named ∧
      Handles router scope { request_id := some id } [header REQUEST_ID_HEADER id] u o := by
  have hscope : scope = scope.set {} := by rw [← hfresh]; rfl
  have hbudget : apply gateway router scope = wrapped none (RequestId (Authenticate gateway
      (Tenancy (RateLimit gateway (BodyHash router)))) (scope.set {})) := by
    rw [← hscope]
    exact if_pos (Or.inr hpath)
  have hlayers : ∀ id : String, Authenticate gateway (Tenancy (RateLimit gateway (BodyHash router)))
      (scope.set { request_id := some id }) = BodyHash router (scope.set { request_id := some id }) := by
    intro id
    have hauth : Authenticate gateway (Tenancy (RateLimit gateway (BodyHash router)))
        (scope.set { request_id := some id }) = Tenancy (RateLimit gateway (BodyHash router))
          (scope.set { request_id := some id }) := if_pos (Or.inr hpath)
    rw [hauth, Tenancy, if_neg (http_of_set hhttp _)]
    exact if_neg (http_of_set hhttp _)
  rw [hbudget, run_request_id hhttp]
  refine exists_congr fun id => exists_congr fun named => exists_congr fun u => and_congr_right fun _ =>
    and_congr_right fun _ => ?_
  have hstate : ({ ({} : State) with request_id := some id } : State) = { request_id := some id } := rfl
  rw [hstate, hlayers, run_body_hash hhttp rfl]
  rfl

/-- Everything else: a budget, an id, and what becomes of it by its credential and its rate. -/
theorem run_apply (hhttp : scope.type = "http") (hfresh : scope.state = {})
    (hpath : scope.path ∉ UNAUTHENTICATED) :
    Run (apply gateway router scope) t o ↔ ∃ arrived now id named u,
      t = ⟨.monotonic, arrived⟩ :: ⟨.monotonic, now⟩ :: (named ++ u) ∧ Named scope id named ∧
        Governed gateway router scope id arrived (framing gateway id arrived now) u o := by
  have hgate : ¬ (¬ is_http scope = true ∨ scope.path ∈ UNBUDGETED) :=
    not_or.mpr ⟨by simp [is_http, hhttp], hpath⟩
  have hbudget : apply gateway router scope = .call .monotonic fun (arrived : ℚ) =>
      .call .monotonic fun (now : ℚ) => wrapped (some [header "X-Budget-Remaining-Ms"
        (format0 (Deadline.remaining_s ⟨arrived + gateway.request_deadline_s⟩ now * 1000))])
        (RequestId (Authenticate gateway (Tenancy (RateLimit gateway (BodyHash router))))
          (scope.set { deadline := some ⟨arrived + gateway.request_deadline_s⟩ })) := by
    refine (if_neg hgate).trans ?_
    rw [hfresh]
    rfl
  rw [hbudget]
  constructor
  · intro h
    obtain ⟨arrived, _, rfl, h₁⟩ := run_call.mp h
    obtain ⟨now, _, rfl, h₂⟩ := run_call.mp h₁
    obtain ⟨id, named, u, rfl, hnamed, hrest⟩ := (run_request_id hhttp _).mp h₂
    exact ⟨arrived, now, id, named, u, rfl, hnamed, (run_authenticate hhttp hpath).mp hrest⟩
  · rintro ⟨arrived, now, id, named, u, rfl, hnamed, h⟩
    refine run_call.mpr ⟨arrived, _, rfl, run_call.mpr ⟨now, _, rfl, ?_⟩⟩
    exact (run_request_id hhttp _).mpr ⟨id, named, u, rfl, hnamed, (run_authenticate hhttp hpath).mpr h⟩

end GuardMem.Ingress
