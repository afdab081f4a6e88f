import GuardMem.Lib.HashChain
import GuardMem.Memory.Tables
import GuardMem.Observability.Payload

/-! The hash-chained audit log: `digest_for`, `next_link` and `verify_chain`.

    CORRECT: `verify_chain` accepts exactly the intact chains (`verified_iff`), and where it stops is
    the first link that fails either of its two tests (`verify_chain_eq`). Where sha256 does not
    collide on what two chains hash, the library's rules on hash chains hold of them (`tells`). -/

namespace GuardMem.Audit

open Lib Lib.HashChain

/-- One link in the append-only hash chain. -/
structure AuditEvent where
  seq : Option ℕ := none
  tenant_id : TenantId
  trace_id : TraceId
  kind : AuditKind
  payload : Payload
  prev_digest : String
  digest : String
  created_at : Time

/-- Whether a tenant's audit chain adds up, and where it stops if not. -/
structure ChainVerification where
  verified : Bool
  broken_at : Option ℕ := none
  checked : ℕ
  deriving DecidableEq

/-- `bytes.hex` as text. -/
def hexdigest (bs : List UInt8) : String := String.ofList (Sha256.hex bs)

/-- The `prev_digest` of the first link: thirty-two zero bytes. -/
def GENESIS : String := hexdigest (List.replicate 32 0)

/-- `str.encode("utf-8")`. -/
def encode (text : String) : List UInt8 := text.toByteArray.data.toList

/-- Decode a hex digest, refusing anything that is not one. -/
def digest_bytes (digest : String) : Except Exc (List UInt8) :=
  if digest.length ≠ 64 then .error (.ValueError
    ("digest must be 64 hex characters, got " ++ toString digest.length ++ "; a truncated " ++
      "predecessor still hashes, so the chain would verify against its own mistake"))
  else match Sha256.fromhex digest.toList with
    | some bs => .ok bs
    | none => .error (.ValueError ("digest is not hexadecimal: '" ++ digest ++ "'"))

/-- `sha256(canonical_json(payload) || prev_digest)` as hex. -/
def digest_for (payload : Payload) (prev_digest : String) : Except Exc String := do
  let text ← canonical_json payload
  let bytes ← digest_bytes prev_digest
  .ok (hexdigest (Sha256.sha256 (encode text ++ bytes)))

/-- Build the link that follows `prev_digest`. -/
def next_link (tenant_id : TenantId) (trace_id : TraceId) (kind : AuditKind) (payload : Payload)
    (prev_digest : String) (created_at : Time) : Except Exc AuditEvent := do
  let digest ← digest_for payload prev_digest
  .ok { tenant_id, trace_id, kind, payload, prev_digest, digest, created_at }

/-- `event.seq`, or its index while that is unset. -/
def AuditEvent.position (event : AuditEvent) (index : ℕ) : ℕ := event.seq.getD index

/-- The loop of `verify_chain`, from a link on. -/
def verify_from (expected_prev : String) (index : ℕ) : List AuditEvent → Except Exc ChainVerification
  | [] => .ok { verified := true, checked := index }
  | event :: events =>
      if event.prev_digest ≠ expected_prev then
        .ok { verified := false, broken_at := some (event.position index), checked := index }
      else
        match digest_for event.payload event.prev_digest with
        | .error exc => .error exc
        | .ok digest =>
            if event.digest ≠ digest then
              .ok { verified := false, broken_at := some (event.position index), checked := index }
            else verify_from event.digest (index + 1) events

/-- Walk a tenant's chain and report the first link that does not add up. -/
def verify_chain (events : List AuditEvent) : Except Exc ChainVerification :=
  verify_from GENESIS 0 events

/-! ### Digests -/

/-- The text of a 32-byte digest. -/
def IsDigest (digest : String) : Prop := ∃ bs : List UInt8, bs.length = 32 ∧ digest = hexdigest bs

theorem isDigest_genesis : IsDigest GENESIS := ⟨_, List.length_replicate, rfl⟩

@[simp] theorem digest_bytes_hexdigest {bs : List UInt8} (h : bs.length = 32) :
    digest_bytes (hexdigest bs) = .ok bs := by
  simp [digest_bytes, hexdigest, h]

theorem hexdigest_injective : Function.Injective hexdigest := fun _ _ h =>
  Sha256.hex_injective (String.ofList_injective h)

theorem encode_injective : Function.Injective encode := by
  intro s t h
  have hdata : s.toByteArray.data = t.toByteArray.data := Array.toList_inj.mp h
  exact String.toByteArray_inj.mp (ByteArray.ext hdata)

theorem digest_for_isDigest {p : Payload} {prev d : String} (h : digest_for p prev = .ok d) :
    IsDigest d := by
  simp only [digest_for, bind_ok, Except.ok.injEq] at h
  obtain ⟨text, -, bytes, -, rfl⟩ := h
  exact ⟨_, Sha256.length_sha256 _, rfl⟩

theorem digest_for_legible {p : Payload} {prev d : String} (h : digest_for p prev = .ok d) :
    ∃ text, canonical_json p = .ok text := by
  simp only [digest_for, bind_ok] at h
  obtain ⟨text, htext, -⟩ := h
  exact ⟨text, htext⟩

/-! ### The chain as links -/

/-- The hash of a canonical text and a predecessor, where both are legible. -/
def chain_hash (text : Option String) (prev_digest : String) : Option String := do
  let text ← text
  let bytes ← (digest_bytes prev_digest).toOption
  return hexdigest (Sha256.sha256 (encode text ++ bytes))

/-- What of an event is hashed or compared. -/
def AuditEvent.link (event : AuditEvent) : Link (Option String) String :=
  ⟨(canonical_json event.payload).toOption, event.prev_digest, event.digest⟩

theorem chain_hash_eq (p : Payload) (prev : String) :
    chain_hash (canonical_json p).toOption prev = (digest_for p prev).toOption := by
  unfold chain_hash digest_for
  cases canonical_json p with
  | error e => rfl
  | ok text =>
      cases digest_bytes prev with
      | error e => rfl
      | ok bytes => rfl

theorem sound_iff {e : AuditEvent} :
    e.link.Sound chain_hash ↔ digest_for e.payload e.prev_digest = .ok e.digest := by
  change chain_hash (canonical_json e.payload).toOption e.prev_digest = some e.digest ↔ _
  rw [chain_hash_eq]
  cases digest_for e.payload e.prev_digest with
  | error exc => simp [Except.toOption]
  | ok d => simp [Except.toOption]

/-- The head of the chain. -/
def last_digest (events : List AuditEvent) : Option String :=
  events.getLast?.map AuditEvent.digest

/-- Every event follows from the one before it, from `GENESIS` on. -/
def Chained (events : List AuditEvent) : Prop :=
  Intact chain_hash GENESIS (events.map AuditEvent.link)

/-- `verify_chain` accepts. -/
def Verified (events : List AuditEvent) : Prop :=
  ∃ v, verify_chain events = .ok v ∧ v.verified = true

theorem head_links (events : List AuditEvent) (g : String) :
    head g (events.map AuditEvent.link) = (last_digest events).getD g := by
  rcases List.eq_nil_or_concat events with rfl | ⟨es, e, rfl⟩
  · rfl
  · simp [head_concat, last_digest, AuditEvent.link]

theorem verified_from_iff {events : List AuditEvent} {prev : String} {index : ℕ} :
    (∃ v, verify_from prev index events = .ok v ∧ v.verified = true) ↔
      Intact chain_hash prev (events.map AuditEvent.link) := by
  induction events generalizing prev index with
  | nil => simp [verify_from, Intact]
  | cons e es ih =>
      rw [verify_from, List.map_cons, Intact, sound_iff]
      by_cases hp : e.prev_digest = prev
      · rw [if_neg (not_not.mpr hp)]
        cases hd : digest_for e.payload e.prev_digest with
        | error exc => simp
        | ok d =>
            by_cases hdig : e.digest = d
            · subst hdig
              simpa [AuditEvent.link, hp] using ih
            · simp [hdig, Ne.symm hdig]
      · rw [if_pos hp]
        simp [AuditEvent.link, hp]

/-- CORRECT: accepted is chained. -/
theorem verified_iff {events : List AuditEvent} : Verified events ↔ Chained events :=
  verified_from_iff

/-- Where `verify_from` stops and what it reports, given that every payload can be hashed. -/
theorem verify_from_eq {events : List AuditEvent}
    (hpay : ∀ e ∈ events, ∃ text, canonical_json e.payload = .ok text) {prev : String}
    (hprev : IsDigest prev) {index : ℕ} :
    verify_from prev index events = .ok
      (match firstBreak chain_hash prev (events.map AuditEvent.link) with
        | none => { verified := true, checked := index + events.length }
        | some i => { verified := false, checked := index + i
                      broken_at := events[i]?.map fun e => e.position (index + i) }) := by
  induction events generalizing prev index with
  | nil => rfl
  | cons e es ih =>
      obtain ⟨bs, hlen, rfl⟩ := hprev
      obtain ⟨text, htext⟩ := hpay e List.mem_cons_self
      rw [verify_from, List.map_cons, firstBreak]
      by_cases hp : e.prev_digest = hexdigest bs
      · obtain ⟨d, hd⟩ : ∃ d, digest_for e.payload e.prev_digest = .ok d := by
          rw [digest_for, htext, hp]
          exact ⟨_, by rw [digest_bytes_hexdigest hlen]; rfl⟩
        rw [if_neg (not_not.mpr hp), hd]
        by_cases hdig : e.digest = d
        · have hsound : e.link.prev = hexdigest bs ∧ e.link.Sound chain_hash :=
            ⟨hp, sound_iff.mpr (hd.trans (congrArg _ hdig.symm))⟩
          have hnext := @ih (fun x hx => hpay x (List.mem_cons_of_mem _ hx)) _
            (digest_for_isDigest (hd.trans (congrArg _ hdig.symm))) (index + 1)
          dsimp only
          rw [if_neg (not_not.mpr hdig), if_pos hsound, hnext, show e.link.digest = e.digest from rfl]
          cases firstBreak chain_hash e.digest (es.map AuditEvent.link) with
          | none =>
              simp only [Option.map_none, List.length_cons]
              congr 2
              omega
          | some i =>
              simp only [Option.map_some, List.getElem?_cons_succ]
              rw [show index + (i + 1) = index + 1 + i by omega]
        · have hbad : ¬ (e.link.prev = hexdigest bs ∧ e.link.Sound chain_hash) := fun h =>
            hdig (Except.ok.inj ((sound_iff.mp h.2).symm.trans hd))
          dsimp only
          rw [if_pos hdig, if_neg hbad]
          rfl
      · have hbad : ¬ (e.link.prev = hexdigest bs ∧ e.link.Sound chain_hash) := fun h => hp h.1
        rw [if_pos hp, if_neg hbad]
        rfl

/-- CORRECT: with every payload legible, `verify_chain` returns and names the first break. -/
theorem verify_chain_eq {events : List AuditEvent}
    (hpay : ∀ e ∈ events, ∃ text, canonical_json e.payload = .ok text) :
    verify_chain events = .ok
      (match firstBreak chain_hash GENESIS (events.map AuditEvent.link) with
        | none => { verified := true, checked := events.length }
        | some i => { verified := false, checked := i
                      broken_at := events[i]?.map fun e => e.position i }) := by
  rw [verify_chain, verify_from_eq hpay isDigest_genesis]
  simp only [Nat.zero_add]

/-! ### What the digests tell -/

/-- What `digest_for` hands to sha256. -/
def hashed (event : AuditEvent) : Option (List UInt8) := do
  let text ← (canonical_json event.payload).toOption
  let bytes ← (digest_bytes event.prev_digest).toOption
  return encode text ++ bytes

/-- sha256 does not collide on anything the two lists hash. -/
def CollisionFree (es es' : List AuditEvent) : Prop :=
  ∀ e ∈ es, ∀ e' ∈ es', ∀ m ∈ hashed e, ∀ m' ∈ hashed e',
    Sha256.sha256 m = Sha256.sha256 m' → m = m'

theorem chained_prev {events : List AuditEvent} {prev : String} (hprev : IsDigest prev)
    (h : Intact chain_hash prev (events.map AuditEvent.link)) :
    ∀ e ∈ events, IsDigest e.prev_digest ∧ digest_for e.payload e.prev_digest = .ok e.digest := by
  induction events generalizing prev with
  | nil => simp
  | cons e es ih =>
      rw [List.map_cons, Intact, sound_iff] at h
      obtain ⟨⟨hp, hd⟩, hrest⟩ := h
      intro x hx
      rcases List.mem_cons.mp hx with rfl | hx
      · exact ⟨by rwa [show x.prev_digest = prev from hp], hd⟩
      · exact ih (digest_for_isDigest hd) hrest x hx

/-- Two sound links with one digest hash one text after one predecessor. -/
theorem tells {e e' : AuditEvent} (hprev : IsDigest e.prev_digest) (hprev' : IsDigest e'.prev_digest)
    (h : digest_for e.payload e.prev_digest = .ok e.digest)
    (h' : digest_for e'.payload e'.prev_digest = .ok e'.digest)
    (hfree : ∀ m ∈ hashed e, ∀ m' ∈ hashed e', Sha256.sha256 m = Sha256.sha256 m' → m = m') :
    Tells e.link e'.link := by
  intro hdig
  obtain ⟨bs, hlen, hbs⟩ := hprev
  obtain ⟨bs', hlen', hbs'⟩ := hprev'
  simp only [digest_for, hbs, hbs', digest_bytes_hexdigest hlen, digest_bytes_hexdigest hlen', bind_ok,
    Except.ok.injEq, exists_eq_left'] at h h'
  obtain ⟨text, htext, hd⟩ := h
  obtain ⟨text', htext', hd'⟩ := h'
  have hmsg : encode text ++ bs = encode text' ++ bs' := by
    refine hfree _ ?_ _ ?_ (hexdigest_injective ?_)
    · simp [hashed, htext, hbs, hlen, Except.toOption]
    · simp [hashed, htext', hbs', hlen', Except.toOption]
    · rw [hd, hd']
      exact hdig
  obtain ⟨htexts, hbytes⟩ := List.append_inj' hmsg (hlen.trans hlen'.symm)
  have hsame : text = text' := encode_injective htexts
  refine ⟨?_, ?_⟩
  · simp only [AuditEvent.link, htext, htext', hsame]
  · simp only [AuditEvent.link, hbs, hbs', hbytes]

theorem chained_tells {es es' : List AuditEvent} (h : Chained es) (h' : Chained es')
    (hfree : CollisionFree es es') :
    ∀ l ∈ es.map AuditEvent.link, ∀ m ∈ es'.map AuditEvent.link, Tells l m := by
  intro l hl m hm
  obtain ⟨e, he, rfl⟩ := List.mem_map.mp hl
  obtain ⟨e', he', rfl⟩ := List.mem_map.mp hm
  obtain ⟨hp, hd⟩ := chained_prev isDigest_genesis h e he
  obtain ⟨hp', hd'⟩ := chained_prev isDigest_genesis h' e' he'
  exact tells hp hp' hd hd' (hfree e he e' he')

end GuardMem.Audit
