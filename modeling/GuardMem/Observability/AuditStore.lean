import GuardMem.Observability.Audit

/-! How a chain link is spelled as an `audit_event` row, and what is read back.

    JSONB keeps a number as its exact decimal value and scale, without an exponent or a negative zero,
    and `json.loads` takes a number without a fraction for an integer. CORRECT exactly for payloads
    whose floats are below `1e16` and not the negative zero (`reads_back_iff`). -/

namespace GuardMem.Audit

open Lib Lib.Json Lib.HashChain

/-! ### The column -/

inductive JsonbScalar where
  | null
  | boolean (b : Bool)
  | numeric (n : Numeral)
  | string (s : String)
  deriving DecidableEq

/-- A stored object: one entry a key, at every level. -/
structure Jsonb where
  entries : List (String × Tree String JsonbScalar)
  distinct : (Tree.obj entries).Distinct

/-- JSONB's order of an object's keys: the shorter in bytes first, then bytewise. -/
def jsonb_le (a b : String) : Prop :=
  a.utf8ByteSize < b.utf8ByteSize ∨ a.utf8ByteSize = b.utf8ByteSize ∧ a ≤ b

instance : DecidableRel jsonb_le := fun _ _ => inferInstanceAs (Decidable (_ ∨ _))

/-- What the column makes of a scalar's text. -/
def to_jsonb : Scalar → JsonbScalar
  | .null => .null
  | .bool b => .boolean b
  | .str s => .string s
  | s => (s.numeral.map fun n => .numeric n.positional).getD .null

/-- `json.loads` of the column's text for a scalar. -/
def loads_scalar : JsonbScalar → Scalar
  | .null => .null
  | .boolean b => .bool b
  | .string s => .str s
  | .numeric n =>
      if n.places = 0 then .int (if n.neg then -n.mant else n.mant)
      else match Binary64.nearest n.neg n.magnitude with
        | some x => .float (.finite x)
        | none => .float (.inf n.neg)

/-- `json.dumps(payload)` into the `JSONB` column. -/
def dumps_jsonb (p : Payload) : Jsonb where
  entries := sortEntries jsonb_le
    (p.entries.map fun kv => (kv.1, (kv.2.sortKeys jsonb_le).map to_jsonb))
  distinct := by
    have h := distinct_map (f := to_jsonb) (distinct_sortKeys jsonb_le p.distinct)
    rw [sortKeys_obj, map_obj, ← sortEntries_map, List.map_map] at h
    exact h

/-- The column's text, and `json.loads`. -/
def loads_jsonb (j : Jsonb) : Payload where
  entries := j.entries.map fun kv => (kv.1, kv.2.map loads_scalar)
  distinct := by
    have h := distinct_map (f := loads_scalar) j.distinct
    rwa [map_obj] at h

/-- A payload that was stored and read. -/
def read_back (p : Payload) : Payload := loads_jsonb (dumps_jsonb p)

/-! ### What survives -/

/-- Not the negative zero, and below `1e16`, from where `repr` writes an exponent. -/
def Survives (p : Payload) : Prop :=
  ∀ x : Binary64, .float (.finite x) ∈ p.value.scalars →
    x.magnitude < 10 ^ 16 ∧ ¬ (x.neg = true ∧ x.mant = 0)

theorem read_back_value (p : Payload) :
    (read_back p).value = (p.value.map (loads_scalar ∘ to_jsonb)).sortKeys jsonb_le := by
  have hstored : (Tree.obj (dumps_jsonb p).entries) = (p.value.map to_jsonb).sortKeys jsonb_le := by
    rw [← map_sortKeys, Payload.value, sortKeys_obj, map_obj, ← sortEntries_map]
    simp only [dumps_jsonb, List.map_map, Function.comp_def]
  have hloaded : (read_back p).value = (Tree.obj (dumps_jsonb p).entries).map loads_scalar := by
    rw [map_obj]
    rfl
  rw [hloaded, hstored, map_sortKeys, map_comp]

/-- CORRECT: the payload read back is the same JSON value when every scalar comes back. -/
theorem same_read_back_iff (p : Payload) :
    p.Same (read_back p) ↔ ∀ s ∈ p.value.scalars, loads_scalar (to_jsonb s) = s := by
  have hperm := scalars_sortKeys (· ≤ ·) p.value
  have hdistinct : (p.value.map (loads_scalar ∘ to_jsonb)).Distinct := distinct_map p.distinct
  rw [Payload.Same, read_back_value, canon_sortKeys hdistinct, Tree.canon, Tree.canon, ← map_sortKeys,
    eq_comm, map_eq_self]
  exact ⟨fun h s hs => h s (hperm.mem_iff.mpr hs), fun h s hs => h s (hperm.mem_iff.mp hs)⟩

theorem loads_numeral {s : Scalar} {n : Numeral} (h : s.numeral = some n) :
    loads_scalar (to_jsonb s) = loads_scalar (.numeric n.positional) := by
  unfold Scalar.numeral at h
  split at h
  · rw [← Option.some.inj h]; rfl
  · rw [← Option.some.inj h]; rfl
  · cases h

theorem int_survives (i : ℤ) : loads_scalar (to_jsonb (.int i)) = .int i := by
  have hself : (Numeral.ofInt i).positional = Numeral.ofInt i := by
    refine Numeral.positional_self rfl fun hneg => ?_
    simp only [Numeral.ofInt, decide_eq_true_eq] at hneg ⊢
    omega
  rw [loads_numeral rfl, hself, loads_scalar, if_pos (show (Numeral.ofInt i).places = 0 from rfl)]
  simp only [Numeral.ofInt, decide_eq_true_eq]
  congr 1
  split <;> omega

/-- CORRECT: a finite double comes back unless it is the negative zero or written with an exponent from
    `1e16` up. -/
theorem float_survives_iff (x : Binary64) :
    loads_scalar (to_jsonb (.float (.finite x))) = .float (.finite x) ↔
      x.magnitude < 10 ^ 16 ∧ ¬ (x.neg = true ∧ x.mant = 0) := by
  rw [loads_numeral rfl, loads_scalar]
  by_cases hbig : 10 ^ 16 ≤ x.magnitude
  · rw [if_pos (x.repr_positional_places.mpr hbig)]
    simp [not_lt.mpr hbig]
  · rw [if_neg (mt x.repr_positional_places.mp hbig), Numeral.positional_magnitude]
    by_cases hzero : x.neg = true ∧ x.mant = 0
    · have hsign : x.repr.positional.neg = false := by simp [Numeral.positional, Binary64.repr_zero hzero.2]
      rw [hsign]
      refine iff_of_false (fun heq => ?_) fun h => h.2 hzero
      split at heq
      · next y hy =>
          obtain rfl : y = x := by simpa using heq
          rw [Binary64.nearest_neg hy] at hzero
          exact Bool.false_ne_true hzero.1
      · simp at heq
    · have hsign : x.repr.positional.neg = x.repr.neg := by
        have hmant := Binary64.repr_neg fun h h0 => hzero ⟨h, h0⟩
        cases hneg : x.repr.neg <;> simp_all [Numeral.positional]
      rw [hsign, x.nearest_repr]
      simp [hzero, not_le.mp hbig]

theorem scalar_survives {s : Scalar} (h : s.Safe) (hnumber : s.numeral = none) :
    loads_scalar (to_jsonb s) = s := by
  rcases safe_cases h with rfl | rfl | rfl | ⟨t, rfl⟩ | ⟨n, hn⟩
  · rfl
  · rfl
  · rfl
  · rfl
  · rw [hn] at hnumber
    cases hnumber

/-- CORRECT: what is hashed is what is read back, exactly for the payloads that survive. -/
theorem canonical_json_read_back {p : Payload} {text : String} (h : canonical_json p = .ok text) :
    canonical_json (read_back p) = .ok text ↔ Survives p := by
  have hsafe := (canonical_json_ok.mp h).1
  rw [canonical_json_same h, same_read_back_iff]
  constructor
  · exact fun hall x hx => (float_survives_iff x).mp (hall _ hx)
  · intro hfloats s hs
    cases s with
    | int i => exact int_survives i
    | float x =>
        cases x with
        | finite x => exact (float_survives_iff x).mpr (hfloats x hs)
        | inf neg => exact scalar_survives (hsafe _ hs) rfl
        | nan => exact scalar_survives (hsafe _ hs) rfl
    | null => rfl
    | bool b => rfl
    | str t => rfl
    | other t => exact scalar_survives (hsafe _ hs) rfl

/-! ### The row -/

/-- What Postgres and its driver make of a tenant id: `::uuid`, the text of one, and `hashtext`. -/
structure Postgres (U : Type) where
  uuid : TenantId → Option U
  str : U → TenantId
  hashtext : TenantId → ℤ

/-- A row of `audit_event`. -/
structure Row (U : Type) where
  seq : ℕ
  tenant_id : U
  trace_id : TraceId
  kind : AuditKind
  payload : Jsonb
  prev_digest : List UInt8
  digest : List UInt8
  created_at : Time

variable {U : Type} (pg : Postgres U)

/-- `INSERT_AUDIT`: the casts of its parameters, and the row. -/
def INSERT_AUDIT (link : AuditEvent) (seq : ℕ) : Option (Row U) := do
  let tenant_id ← pg.uuid link.tenant_id
  let prev_digest ← Sha256.fromhex link.prev_digest.toList
  let digest ← Sha256.fromhex link.digest.toList
  return { seq, tenant_id, trace_id := link.trace_id, kind := link.kind
           payload := dumps_jsonb link.payload, prev_digest, digest, created_at := link.created_at }

/-- Rebuild a link from its row. -/
def event_from_row (row : Row U) : AuditEvent where
  seq := some row.seq
  tenant_id := pg.str row.tenant_id
  trace_id := row.trace_id
  kind := row.kind
  payload := loads_jsonb row.payload
  prev_digest := hexdigest row.prev_digest
  digest := hexdigest row.digest
  created_at := row.created_at

/-- The link was stored as this row. -/
def Inserted (link : AuditEvent) (row : Row U) : Prop := ∃ seq, INSERT_AUDIT pg link seq = some row

variable {pg}

theorem fromhex_hexdigest (bs : List UInt8) : Sha256.fromhex (hexdigest bs).toList = some bs := by
  rw [hexdigest, String.toList_ofList, Sha256.fromhex_hex]

/-- CORRECT: a link with sound digests comes back with its digests, and its payload as read back. -/
theorem inserted_digests {e : AuditEvent} {row : Row U} (h : Inserted pg e row)
    (hprev : IsDigest e.prev_digest) (hdigest : IsDigest e.digest) :
    (event_from_row pg row).prev_digest = e.prev_digest ∧
      (event_from_row pg row).digest = e.digest ∧
      (event_from_row pg row).payload = read_back e.payload := by
  obtain ⟨seq, hrow⟩ := h
  obtain ⟨bs, -, hbs⟩ := hprev
  obtain ⟨ds, -, hds⟩ := hdigest
  simp only [INSERT_AUDIT, hbs, hds, fromhex_hexdigest, Option.pure_def, Option.bind_eq_bind,
    Option.bind_some, Option.bind_eq_some_iff, Option.some.injEq] at hrow
  obtain ⟨u, -, rfl⟩ := hrow
  exact ⟨hbs.symm, hds.symm, rfl⟩

/-- A stored link is the same link when read back, exactly where its payload survives. -/
theorem inserted_link {e : AuditEvent} {row : Row U} (h : Inserted pg e row)
    (hprev : IsDigest e.prev_digest) (hsound : digest_for e.payload e.prev_digest = .ok e.digest) :
    (event_from_row pg row).link = e.link ↔ Survives e.payload := by
  obtain ⟨hp, hd, hpayload⟩ := inserted_digests h hprev (digest_for_isDigest hsound)
  obtain ⟨text, htext⟩ := digest_for_legible hsound
  rw [← canonical_json_read_back htext, AuditEvent.link, AuditEvent.link, hp, hd, hpayload, htext]
  cases canonical_json (read_back e.payload) with
  | error exc => simp [Except.toOption]
  | ok t => simp [Except.toOption]

theorem inserted_links {es : List AuditEvent} {rows : List (Row U)}
    (hsound : ∀ e ∈ es, IsDigest e.prev_digest ∧ digest_for e.payload e.prev_digest = .ok e.digest)
    (h : List.Forall₂ (Inserted pg) es rows) (hs : ∀ e ∈ es, Survives e.payload) :
    (rows.map (event_from_row pg)).map AuditEvent.link = es.map AuditEvent.link := by
  induction h with
  | nil => rfl
  | cons hrow _ ih =>
      obtain ⟨hprev, hdigest⟩ := hsound _ List.mem_cons_self
      rw [List.map_cons, List.map_cons, List.map_cons,
        (inserted_link hrow hprev hdigest).mpr (hs _ List.mem_cons_self),
        ih (fun e he => hsound e (List.mem_cons_of_mem _ he)) fun e he => hs e (List.mem_cons_of_mem _ he)]

/-- CORRECT: the rows of an accepted chain are an accepted chain when its payloads survive. -/
theorem verified_read_back {es : List AuditEvent} {rows : List (Row U)} (h : Verified es)
    (hrows : List.Forall₂ (Inserted pg) es rows) (hs : ∀ e ∈ es, Survives e.payload) :
    Verified (rows.map (event_from_row pg)) := by
  rw [verified_iff] at h ⊢
  rw [Chained, inserted_links (chained_prev isDigest_genesis h) hrows hs]
  exact h

/-- The payloads read back have the canonical texts that were hashed. -/
def SameTexts (pg : Postgres U) : List AuditEvent → List (Row U) → Prop :=
  List.Forall₂ fun e row => canonical_json (event_from_row pg row).payload = canonical_json e.payload

theorem sameTexts_iff {es : List AuditEvent} {rows : List (Row U)}
    (hsound : ∀ e ∈ es, IsDigest e.prev_digest ∧ digest_for e.payload e.prev_digest = .ok e.digest)
    (h : List.Forall₂ (Inserted pg) es rows) :
    SameTexts pg es rows ↔ ∀ e ∈ es, Survives e.payload := by
  unfold SameTexts
  induction h with
  | nil => simp
  | @cons e row es rows hrow _ ih =>
      obtain ⟨hprev, hdigest⟩ := hsound e List.mem_cons_self
      obtain ⟨-, -, hpayload⟩ := inserted_digests hrow hprev (digest_for_isDigest hdigest)
      obtain ⟨text, htext⟩ := digest_for_legible hdigest
      rw [List.forall₂_cons, List.forall_mem_cons, ih fun e he => hsound e (List.mem_cons_of_mem _ he),
        hpayload, htext, canonical_json_read_back htext]

/-- CORRECT: what is hashed is what is read back, of a payload and of every payload of a chain that then
    verifies, exactly when the floats are below `1e16` and not the negative zero. -/
theorem reads_back_iff (pg : Postgres U) :
    (∀ p text, canonical_json p = .ok text → (canonical_json (read_back p) = .ok text ↔ Survives p)) ∧
    ∀ es rows, Verified es → List.Forall₂ (Inserted pg) es rows →
      (SameTexts pg es rows ∧ Verified (rows.map (event_from_row pg)) ↔
        ∀ e ∈ es, Survives e.payload) := by
  refine ⟨fun p text h => canonical_json_read_back h, fun es rows h hrows => ?_⟩
  rw [sameTexts_iff (chained_prev isDigest_genesis (verified_iff.mp h)) hrows]
  exact and_iff_left_of_imp fun hs => verified_read_back h hrows hs

/-- `{"x": 1e16}`. -/
def huge_payload : Payload :=
  ⟨[("x", .leaf (.float (.finite (Binary64.tenToSixteen false))))], by simp⟩

/-- Hashed as `{"x":1e+16}`, read back as `{"x":10000000000000000}`. -/
theorem huge_changes : ¬ ∀ p text, canonical_json p = .ok text →
    canonical_json (read_back p) = .ok text := by
  intro h
  have hsafe : huge_payload.value.All Scalar.Safe := by
    intro s hs
    obtain rfl : s = .float (.finite (Binary64.tenToSixteen false)) := by
      simpa [huge_payload, Payload.value] using hs
    exact ⟨rfl, rfl⟩
  have htext := canonical_json_ok.mpr ⟨hsafe, rfl⟩
  have hsurvives := (canonical_json_read_back htext).mp (h _ _ htext)
  have hlt := (hsurvives (Binary64.tenToSixteen false) (by simp [huge_payload, Payload.value])).1
  rw [Binary64.magnitude_tenToSixteen] at hlt
  exact lt_irrefl _ hlt

end GuardMem.Audit
