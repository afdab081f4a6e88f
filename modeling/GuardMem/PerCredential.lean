import GuardMem.Lib.Noninterference
import GuardMem.Memory.Tables
import GuardMem.RateLimit
import Mathlib.Logic.Function.Basic

/-! Whether one credential's requests can spend another's: `SettingsAuthBackend` and the bucket each key
    of `GM_GATEWAY_API_KEYS` is limited by.

    A principal carries the first eight characters of its credential, and its bucket is named by them and
    its tenant. So what a credential is answered depends on its own requests alone exactly where no other
    configured credential of that name exists (`per_credential_iff`), and keys issued with one prefix share
    one bucket (`prefix_shared`). -/

namespace GuardMem.Limits

open Lib.TokenBucket Lib.Noninterference

/-! ### The configured keys -/

/-- An authenticated caller. -/
structure Principal where
  tenant_id : TenantId
  key_id : String
  scopes : List String
  deriving DecidableEq

/-- Credential to principal. -/
abbrev Keys := String → Option Principal

/-- `credential[:8]`. -/
def first_eight (credential : String) : String := String.ofList (credential.toList.take 8)

def JsonArr.map_str (str : Json → String) : JsonArr → List String
  | .nil => []
  | .cons x xs => str x :: map_str str xs

variable (str : Json → String)

/-- One entry; `str` is the language's text of a value. -/
def parse_grant (credential : String) : Json → Except Exc Principal
  | .obj grant =>
      match grant.lookup "tenant" with
      | none => .error (.ValueError "each GM_GATEWAY_API_KEYS entry must be an object with a `tenant` field")
      | some tenant =>
          match grant.lookup "scopes" with
          | none => .ok ⟨str tenant, first_eight credential, []⟩
          | some (.arr scopes) => .ok ⟨str tenant, first_eight credential, JsonArr.map_str str scopes⟩
          | some _ => .error (.ValueError "`scopes` must be a list of strings")
  | _ => .error (.ValueError "each GM_GATEWAY_API_KEYS entry must be an object with a `tenant` field")

/-- One entry after another; a later one replaces an earlier of the same credential. -/
def parse_items : JsonObj → Keys → Except Exc Keys
  | .nil, keys => .ok keys
  | .cons credential grant rest, keys => do
      let principal ← parse_grant str credential grant
      parse_items rest (Function.update keys credential (some principal))

/-- Turn the configured JSON into principals. -/
def parse : Json → Except Exc Keys
  | .obj parsed => parse_items str parsed fun _ => none
  | _ => .error (.ValueError "GM_GATEWAY_API_KEYS must be a JSON object mapping key to grant")

/-- The keys of a gateway; an empty setting yields none. -/
def SettingsAuthBackend : Option Json → Except Exc Keys
  | none => .ok fun _ => none
  | some raw => parse str raw

/-! ### The limiter -/

/-- The Redis key one caller's bucket lives at. -/
def bucket_key (principal : Principal) : String := "rl:" ++ principal.tenant_id ++ ":" ++ principal.key_id

/-- A bucket in Redis, and when Redis expires it. -/
structure Entry where
  bucket : Bucket ℚ
  expires : ℚ

abbrev Redis := String → Option Entry

/-- What is left of an entry at a time of Redis's clock. -/
def Entry.live (time : ℚ) (e : Entry) : Option (Bucket ℚ) :=
  if time < e.expires then some e.bucket else none

variable (limiter : TokenBucket)

/-- The script on one key at a reading of the caller's clock and a time of Redis's. -/
def TokenBucket.script (now time : ℚ) (entry : Option Entry) : Reply × Entry :=
  let (reply, bucket) := bucket_script limiter.capacity limiter.refill_per_second now
    (entry.bind (Entry.live time))
  (reply, ⟨bucket, time + limiter.idle_ttl⟩)

/-- Consume a token if one is available. -/
def TokenBucket.check (principal : Principal) (now time : ℚ) (redis : Redis) : Reply × Redis :=
  let (reply, entry) := limiter.script now time (redis (bucket_key principal))
  (reply, Function.update redis (bucket_key principal) (some entry))

/-- A request: whose, and when by the replica's clock and by Redis's. -/
structure Request where
  credential : String
  now : ℚ
  time : ℚ

/-- Redis, and what each request with a configured credential was answered. -/
structure Served where
  redis : Redis
  answered : List (String × Bool)

def Served.none : Served := ⟨fun _ => Option.none, []⟩

/-- One request; without a principal it is refused before it is limited. -/
def serve (keys : Keys) (s : Served) (req : Request) : Served :=
  match keys req.credential with
  | .none => s
  | some principal =>
      let (reply, redis) := limiter.check principal req.now req.time s.redis
      ⟨redis, s.answered ++ [(req.credential, reply.allowed)]⟩

/-- The decisions one credential receives. -/
def Served.decisions (credential : String) (s : Served) : List (String × Bool) :=
  s.answered.filter fun a => a.1 == credential

/-- Every credential is decided on as if it were alone. -/
def PerCredential (keys : Keys) : Prop :=
  ∀ (credential : String) (requests : List Request),
    (requests.foldl (serve limiter keys) .none).decisions credential =
      ((requests.filter fun req => req.credential == credential).foldl (serve limiter keys) .none).decisions
        credential

/-- No two configured credentials have the same tenant and first eight characters, as the key joins them. -/
def Told (keys : Keys) : Prop :=
  ∀ c c' p p', keys c = some p → keys c' = some p' →
    p.tenant_id ++ ":" ++ first_eight c = p'.tenant_id ++ ":" ++ first_eight c' → c = c'

variable {str limiter} {keys : Keys} {s : Served} {req : Request} {c c' : String} {p p' : Principal}

/-! ### What is configured -/

/-- A principal is labelled with the first eight characters of its credential. -/
theorem parse_items_key_id : ∀ {parsed : JsonObj} {start : Keys},
    (∀ c p, start c = some p → p.key_id = first_eight c) → parse_items str parsed start = .ok keys →
    ∀ c p, keys c = some p → p.key_id = first_eight c
  | .nil, start, hstart, h => by
      obtain rfl := Except.ok.inj h
      exact hstart
  | .cons credential grant rest, start, hstart, h => by
      obtain ⟨principal, hprincipal, hrest⟩ := bind_ok.mp h
      refine parse_items_key_id (fun c p hp => ?_) hrest
      rcases eq_or_ne c credential with rfl | hne
      · rw [Function.update_self] at hp
        obtain rfl := Option.some.inj hp
        unfold parse_grant at hprincipal
        split at hprincipal
        · split at hprincipal
          · cases hprincipal
          · split at hprincipal
            all_goals first | cases hprincipal; rfl | cases hprincipal
        · cases hprincipal
      · rw [Function.update_of_ne hne] at hp
        exact hstart c p hp

theorem key_id_of_accepted {loaded : Option Json} (h : SettingsAuthBackend str loaded = .ok keys)
    (hp : keys c = some p) : p.key_id = first_eight c := by
  cases loaded with
  | none =>
      obtain rfl := Except.ok.inj h
      cases hp
  | some raw =>
      cases raw with
      | obj parsed => exact parse_items_key_id (by simp) h c p hp
      | _ => cases h

/-! ### One credential's view -/

/-- What one credential is answered, and what Redis holds under its key. -/
def view (c : String) (p : Principal) (s : Served) : Option Entry × List (String × Bool) :=
  (s.redis (bucket_key p), s.decisions c)

/-- A request of its own, as the credential sees it. -/
def own (limiter : TokenBucket) (v : Option Entry × List (String × Bool)) (req : Request) :
    Option Entry × List (String × Bool) :=
  (some (limiter.script req.now req.time v.1).2,
    v.2 ++ [(req.credential, (limiter.script req.now req.time v.1).1.allowed)])

theorem view_serve_own (hp : keys c = some p) (hreq : (req.credential == c) = true) :
    view c p (serve limiter keys s req) = own limiter (view c p s) req := by
  have hc : req.credential = c := by simpa using hreq
  unfold serve view own
  rw [hc, hp]
  simp [TokenBucket.check, Served.decisions]

theorem view_serve_other (htold : ∀ c' p', keys c' = some p' → bucket_key p' = bucket_key p → c' = c)
    (hreq : (req.credential == c) = false) : view c p (serve limiter keys s req) = view c p s := by
  have hc : req.credential ≠ c := by simpa using hreq
  unfold serve
  cases hp' : keys req.credential with
  | none => rfl
  | some p' =>
      have hkey : bucket_key p ≠ bucket_key p' := fun heq => hc (htold _ _ hp' heq.symm)
      simp [view, TokenBucket.check, Served.decisions, Function.update_of_ne hkey, hc]

/-- A credential that is not configured is decided on never. -/
theorem decisions_unknown (hc : keys c = none) (h : s.decisions c = []) :
    (serve limiter keys s req).decisions c = [] := by
  unfold serve
  cases hp' : keys req.credential with
  | none => exact h
  | some p' =>
      have hne : req.credential ≠ c := fun heq => by
        rw [heq, hc] at hp'
        cases hp'
      simpa [Served.decisions, hne] using h

theorem decisions_foldl_unknown (hc : keys c = none) (requests : List Request) :
    (requests.foldl (serve limiter keys) .none).decisions c = [] :=
  inv_foldl (I := fun s : Served => s.decisions c = []) (fun _ _ h => decisions_unknown hc h) rfl

/-- CORRECT: where its name is its own, a credential is decided on as if it were alone. -/
theorem alone_of_told (htold : ∀ c' p', keys c' = some p' → ∀ p, keys c = some p →
      bucket_key p' = bucket_key p → c' = c) (requests : List Request) :
    (requests.foldl (serve limiter keys) .none).decisions c =
      ((requests.filter fun req => req.credential == c).foldl (serve limiter keys) .none).decisions c := by
  cases hp : keys c with
  | none => rw [decisions_foldl_unknown hp, decisions_foldl_unknown hp]
  | some p =>
      have hsame : Same (fun req : Request => req.credential == c) requests
          (requests.filter fun req => req.credential == c) := by
        rw [Same, List.filter_filter]
        simp
      have hview : view c p (requests.foldl (serve limiter keys) .none) =
          view c p ((requests.filter fun req => req.credential == c).foldl (serve limiter keys) .none) :=
        view_eq_of_same (I := fun _ => True) (fun _ _ _ => trivial) (fun _ _ _ => view_serve_own hp)
          (fun _ _ _ => view_serve_other fun c' p' hp' => htold c' p' hp' p hp) hsame trivial
      exact congrArg Prod.snd hview

/-! ### Two credentials of one name -/

/-- So many requests of one credential, all at the start. -/
def burst (c : String) (n : ℕ) : List Request := List.replicate n ⟨c, 0, 0⟩

theorem ttl_pos (limiter : TokenBucket) : (0 : ℚ) < limiter.idle_ttl := (capacity_le_idle_ttl limiter).1

/-- A bucket at the start, with so many tokens left and alive. -/
def Left (limiter : TokenBucket) (tokens : ℚ) (entry : Option Entry) : Prop :=
  (entry = none ∧ tokens = limiter.capacity) ∨
    ∃ expires, 0 < expires ∧ entry = some ⟨⟨tokens, 0⟩, expires⟩

theorem script_left {tokens : ℚ} {entry : Option Entry} (h : Left limiter tokens entry) :
    (limiter.script 0 0 entry).1.allowed = Decidable.decide (1 ≤ tokens) ∧
      Left limiter (if 1 ≤ tokens then tokens - 1 else tokens) (some (limiter.script 0 0 entry).2) := by
  have hstate : (entry.bind (Entry.live 0)).getD ⟨limiter.capacity, 0⟩ = ⟨tokens, 0⟩ := by
    rcases h with ⟨rfl, rfl⟩ | ⟨expires, hpos, rfl⟩
    · rfl
    · simp [Entry.live, hpos]
  have hpos : (0 : ℚ) < 0 + limiter.idle_ttl := by simpa using ttl_pos limiter
  unfold TokenBucket.script bucket_script
  simp only [hstate, sub_self, lt_irrefl, if_false]
  split_ifs with hone
  · exact ⟨by simp [hone], Or.inr ⟨_, hpos, rfl⟩⟩
  · exact ⟨by simp [hone], Or.inr ⟨_, hpos, rfl⟩⟩

/-- The burst of one credential leaves nothing under its name, and is not another's. -/
theorem burst_drains (hp : keys c' = some p') (hc : c' ≠ c) : ∀ {n : ℕ} {s : Served},
    Left limiter n (s.redis (bucket_key p')) → s.decisions c = [] →
    Left limiter 0 (((burst c' n).foldl (serve limiter keys) s).redis (bucket_key p')) ∧
      ((burst c' n).foldl (serve limiter keys) s).decisions c = []
  | 0, s, hleft, hnone => ⟨by simpa [burst] using hleft, hnone⟩
  | n + 1, s, hleft, hnone => by
      obtain ⟨-, hnext⟩ := script_left hleft
      have hone : (1 : ℚ) ≤ (n + 1 : ℕ) := Nat.one_le_cast.mpr (Nat.succ_pos n)
      have htokens : ((n + 1 : ℕ) : ℚ) - 1 = (n : ℕ) := by push_cast; ring
      rw [if_pos hone, htokens] at hnext
      refine @burst_drains hp hc n (serve limiter keys s ⟨c', 0, 0⟩) ?_ ?_
      · simpa [serve, hp, TokenBucket.check] using hnext
      · simpa [serve, hp, TokenBucket.check, Served.decisions, hc] using hnone

/-- What a request at the start is answered by what is left under its name. -/
theorem decisions_last {tokens : ℚ} (hp : keys c = some p)
    (hleft : Left limiter tokens (s.redis (bucket_key p))) (hnone : s.decisions c = []) :
    (serve limiter keys s ⟨c, 0, 0⟩).decisions c = [(c, Decidable.decide (1 ≤ tokens))] := by
  have hdecided := (script_left hleft).1
  have happend : (serve limiter keys s ⟨c, 0, 0⟩).decisions c = s.decisions c ++
      [(c, (limiter.script 0 0 (s.redis (bucket_key p))).1.allowed)] := by
    simp [serve, hp, TokenBucket.check, Served.decisions]
  rw [happend, hnone, hdecided, List.nil_append]

/-- Two credentials of one name: the burst of one refuses the other. -/
theorem told_of_alone (h : PerCredential limiter keys) (hp : keys c = some p) (hp' : keys c' = some p')
    (hkey : bucket_key p = bucket_key p') : c = c' := by
  by_contra hc
  have hc' : c' ≠ c := fun heq => hc heq.symm
  have hsame := h c (burst c' limiter.burst ++ [⟨c, 0, 0⟩])
  have hother : ((burst c' limiter.burst).filter fun req => req.credential == c) = [] := by
    refine List.filter_eq_nil_iff.mpr fun req hreq => ?_
    obtain rfl := List.eq_of_mem_replicate hreq
    simpa using hc'
  have hown : ([⟨c, 0, 0⟩] : List Request).filter (fun req => req.credential == c) = [⟨c, 0, 0⟩] := by simp
  obtain ⟨hdrained, hnone⟩ := @burst_drains limiter keys c c' p' hp' hc' limiter.burst .none
    (Or.inl ⟨rfl, rfl⟩) rfl
  rw [List.filter_append, hother, hown, List.nil_append, List.foldl_append, List.foldl_cons, List.foldl_nil,
    List.foldl_cons, List.foldl_nil, decisions_last hp (hkey ▸ hdrained) hnone,
    decisions_last hp (Or.inl ⟨rfl, rfl⟩) rfl] at hsame
  have hfull : (1 : ℚ) ≤ limiter.capacity := limiter.rate.one_le_capacity
  norm_num [hfull] at hsame

theorem told_iff (hlabel : ∀ c p, keys c = some p → p.key_id = first_eight c) :
    Told keys ↔ ∀ c c' p p', keys c = some p → keys c' = some p' → bucket_key p = bucket_key p' → c = c' := by
  have hname : ∀ c p, keys c = some p → bucket_key p = "rl:" ++ (p.tenant_id ++ ":" ++ first_eight c) := by
    intro c p hp
    rw [bucket_key, hlabel c p hp]
    simp only [String.append_assoc]
  constructor
  · intro h c c' p p' hp hp' hkey
    rw [hname c p hp, hname c' p' hp'] at hkey
    exact h c c' p p' hp hp' ((String.append_right_inj _).mp hkey)
  · intro h c c' p p' hp hp' heq
    exact h c c' p p' hp hp' (by rw [hname c p hp, hname c' p' hp', heq])

/-- CORRECT: every credential is decided on as if it were alone exactly where no two have the same tenant
    and first eight characters. -/
theorem per_credential_iff (str : Json → String) (loaded : Option Json) (keys : Keys) (limiter : TokenBucket)
    (h : SettingsAuthBackend str loaded = .ok keys) : PerCredential limiter keys ↔ Told keys := by
  rw [told_iff fun c p => key_id_of_accepted h]
  constructor
  · intro halone c c' p p' hp hp' hkey
    exact told_of_alone halone hp hp' hkey
  · intro htold c requests
    exact alone_of_told (fun c' p' hp' p hp hkey => htold c' c p' p hp' hp hkey) requests

/-! ### Two keys of one clinic -/

/-- `str` of a text is the text. -/
def text : Json → String
  | .str s => s
  | _ => ""

/-- A setting with two keys for the clinic. -/
def two_keys (a b : String) : Json :=
  .obj (.ofList [(a, .obj (.ofList [("tenant", .str "clinic"), ("scopes", .arr (.ofList [.str "memory:read"]))])),
    (b, .obj (.ofList [("tenant", .str "clinic")]))])

theorem one_le_default_burst : 1 ≤ 120 := by decide

theorem one_le_default_rate : 1 ≤ 60 := by decide

/-- The default rate and burst. -/
def default_limiter : TokenBucket := ⟨120, 60, one_le_default_burst, one_le_default_rate⟩

theorem two_keys_parsed (a b : String) : SettingsAuthBackend text (some (two_keys a b)) =
    .ok (Function.update (Function.update (fun _ => none) a (some ⟨"clinic", first_eight a, ["memory:read"]⟩)) b
      (some ⟨"clinic", first_eight b, []⟩)) := rfl

/-- Keys that begin differently are limited apart. -/
theorem intake_alone : ∃ keys, SettingsAuthBackend text (some (two_keys "intake-gm_live" "billing-gm_live")) =
    .ok keys ∧ PerCredential default_limiter keys := by
  refine ⟨_, two_keys_parsed _ _, (per_credential_iff text _ _ default_limiter (two_keys_parsed _ _)).mpr ?_⟩
  have hconfigured : ∀ {c : String} {p : Principal}, Function.update (Function.update (fun _ => none)
      "intake-gm_live" (some ⟨"clinic", first_eight "intake-gm_live", ["memory:read"]⟩)) "billing-gm_live"
      (some ⟨"clinic", first_eight "billing-gm_live", []⟩) c = some p →
      p.tenant_id = "clinic" ∧ (c = "intake-gm_live" ∨ c = "billing-gm_live") := by
    intro c p hp
    rcases eq_or_ne c "billing-gm_live" with rfl | hb
    · rw [Function.update_self] at hp
      obtain rfl := Option.some.inj hp
      exact ⟨rfl, Or.inr rfl⟩
    · rw [Function.update_of_ne hb] at hp
      rcases eq_or_ne c "intake-gm_live" with rfl | ha
      · rw [Function.update_self] at hp
        obtain rfl := Option.some.inj hp
        exact ⟨rfl, Or.inl rfl⟩
      · rw [Function.update_of_ne ha] at hp
        cases hp
  intro c c' p p' hp hp' hname
  obtain ⟨ht, hc⟩ := hconfigured hp
  obtain ⟨ht', hc'⟩ := hconfigured hp'
  rw [ht, ht'] at hname
  rcases hc with rfl | rfl <;> rcases hc' with rfl | rfl <;>
    first | rfl | exact absurd hname (by decide +kernel)

/-- Keys issued with one prefix share a bucket: the burst of one refuses the other. -/
theorem prefix_shared : ∃ keys, SettingsAuthBackend text (some (two_keys "gm_live_intake" "gm_live_billing")) =
    .ok keys ∧ ¬ PerCredential default_limiter keys := by
  refine ⟨_, two_keys_parsed _ _, fun h => ?_⟩
  have hsame : "gm_live_intake" = "gm_live_billing" :=
    told_of_alone h (Function.update_of_ne (by decide +kernel) _ _) (Function.update_self ..) (by decide +kernel)
  exact absurd hsame (by decide +kernel)

end GuardMem.Limits
