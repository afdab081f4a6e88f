import GuardMem.Lib.Numeral
import GuardMem.Memory.Tables
import GuardMem.Schemas.Entity

/-! From models to rows and back: `rowmap.py` and the two row functions of `outbox.py`.

    Every id on a replay path is derived. A citation's id is derived from its assertion's id, the
    document and the span, so two citations with one id belong to one assertion
    (`citation_id_assertion`). -/

namespace GuardMem

variable (uuid : Uuid5)

/-- Flatten one assertion into the INSERT's parameters. The store's tenant overrides the model's, and
    `visible` is a literal `false`. -/
def assertion_params (a : StoredAssertion) (tenant : TenantId) (vector : List ℚ) :
    AssertionRow where
  id := a.assertion_id
  tenant_id := tenant
  «namespace» := a.namespace
  subject_id := a.subject_id
  predicate := a.predicate
  object_json := a.object.toJson
  confidence := a.confidence.1
  risk := a.risk.1
  valid_from := a.valid_from
  valid_to := a.valid_to
  recorded_at := a.recorded_at
  retracted_at := a.retracted_at
  superseded_by := a.superseded_by
  corroboration_count := a.corroboration_count
  trace_id := a.trace_id
  visible := false
  embedding := some vector

/-- The id of one citation of an assertion. -/
def citation_id (aid : AssertionId) (citation : Provenance) : String :=
  uuid.of (aid ++ "/" ++ citation.source_hash ++ "/" ++ toString citation.source_span.1 ++ "-" ++
    toString citation.source_span.2)

def citation_params (aid : AssertionId) (citation : Provenance) : ProvenanceRow where
  id := citation_id uuid aid citation
  assertion_id := aid
  source_hash := citation.source_hash
  span_start := citation.source_span.1
  span_end := citation.source_span.2
  source_tier := citation.source_tier.value
  verbatim := citation.verbatim
  alignment := citation.alignment.1
  captured_at := citation.captured_at

/-- Flatten one assertion's citations. -/
def provenance_params (a : StoredAssertion) : List ProvenanceRow :=
  a.provenance.map (citation_params uuid a.assertion_id)

/-- The id of an assertion's outbox event. -/
def outbox_id (aid : AssertionId) : String := uuid.of ("outbox/" ++ aid)

/-- Flatten one pending dual write; `created_at` is the column's default, the transaction's clock. -/
def outbox_params (a : StoredAssertion) (tenant : TenantId) (now : Time) : OutboxRow where
  id := outbox_id uuid a.assertion_id
  assertion_id := a.assertion_id
  event := .obj <| .ofList
    [("kind", .str "assertion.written"),
     ("tenant_id", .str tenant),
     ("namespace", .str a.namespace),
     ("trace_id", .str a.trace_id)]
  attempts := 0
  created_at := now
  dispatched_at := none

/-- One undispatched outbox row, as the relay needs it. -/
structure PendingEvent where
  outbox_id : String
  assertion_id : AssertionId
  tenant_id : TenantId
  «namespace» : Namespace
  trace_id : TraceId
  deriving DecidableEq

/-- `payload[key]`, for the string fields of an event. -/
def JsonObj.get (key : String) : JsonObj → Except Exc String
  | .nil => .error (.KeyError key)
  | .cons k (.str v) rest => if k = key then .ok v else rest.get key
  | .cons k _ rest => if k = key then .error (.DataError key) else rest.get key

/-- Rebuild a `PendingEvent` from a claimed outbox row. A payload without its fields raises. -/
def pending_from_row (row : OutboxRow) : Except Exc PendingEvent :=
  match row.event with
  | .obj payload => do
      let tenant_id ← payload.get "tenant_id"
      let ns ← payload.get "namespace"
      let trace_id ← payload.get "trace_id"
      .ok ⟨row.id, row.assertion_id, tenant_id, ns, trace_id⟩
  | _ => .error (.KeyError "tenant_id")

/-- Rebuild a `Provenance` from a provenance row; the first check that fails names its field. -/
def provenance_from_row (row : ProvenanceRow) : Except Exc Provenance :=
  match SourceTier.ofValue row.source_tier with
  | none => .error (.ValueError (row.source_tier ++ " is not a valid SourceTier"))
  | some tier =>
      if hv : row.verbatim.length ≤ 2000 then
        if ha : 0 ≤ row.alignment ∧ row.alignment ≤ 1 then
          if hs : row.span_start < row.span_end then
            .ok ⟨row.source_hash, (row.span_start, row.span_end), tier, row.verbatim,
              ⟨row.alignment, ha⟩, row.captured_at, hv, hs⟩
          else .error (.ValidationError "source_span")
        else .error (.ValidationError "alignment")
      else .error (.ValidationError "verbatim")

/-- Rebuild a `StoredAssertion` from one row and its citations. -/
def assertion_from_row (row : AssertionRow) (provenance : List Provenance) :
    Except Exc StoredAssertion :=
  match ObjectValue.ofJson row.object_json with
  | none => .error (.ValidationError "object")
  | some object =>
      if hc : 0 ≤ row.confidence ∧ row.confidence ≤ 1 then
        if hr : 0 ≤ row.risk ∧ row.risk ≤ 1 then
          if hp : provenance ≠ [] then
            if hn : 1 ≤ row.corroboration_count then
              if hi : ∀ t ∈ row.valid_to, row.valid_from ≤ t then
                .ok
                  { assertion_id := row.id, tenant_id := row.tenant_id, «namespace» := row.namespace
                    subject_id := row.subject_id, predicate := row.predicate, object := object
                    confidence := ⟨row.confidence, hc⟩, risk := ⟨row.risk, hr⟩
                    valid_from := row.valid_from, valid_to := row.valid_to
                    recorded_at := row.recorded_at, retracted_at := row.retracted_at
                    superseded_by := row.superseded_by, provenance := provenance
                    corroboration_count := row.corroboration_count, trace_id := row.trace_id
                    visible := row.visible
                    sourced := hp, corroborated := hn, interval_coherent := hi }
              else .error (.ValidationError "valid_to")
            else .error (.ValidationError "corroboration_count")
          else .error (.ValidationError "provenance")
        else .error (.ValidationError "risk")
      else .error (.ValidationError "confidence")

/-! ### What the row functions keep -/

/-- A loaded assertion reads its columns back. -/
theorem assertion_from_row_ok {row : AssertionRow} {ps : List Provenance} {a : StoredAssertion}
    (h : assertion_from_row row ps = .ok a) :
    a.assertion_id = row.id ∧ a.tenant_id = row.tenant_id ∧ a.subject_id = row.subject_id ∧
      a.predicate = row.predicate ∧ ObjectValue.ofJson row.object_json = some a.object ∧
      a.confidence.1 = row.confidence ∧ a.valid_from = row.valid_from ∧
      a.valid_to = row.valid_to ∧ a.trace_id = row.trace_id := by
  unfold assertion_from_row at h
  split at h
  · simp at h
  · next object ho =>
      split_ifs at h
      obtain rfl := Except.ok.inj h
      exact ⟨rfl, rfl, rfl, rfl, ho, rfl, rfl, rfl, rfl⟩

/-- What goes in passes the table's own checks, short of superseding itself. -/
theorem assertion_params_violated {a : StoredAssertion} {tenant : TenantId} {v : List ℚ}
    (h : a.superseded_by ≠ some a.assertion_id) :
    (assertion_params a tenant v).violated = none :=
  AssertionRow.violated_eq_none.mpr
    ⟨a.confidence.2, a.risk.2, a.corroborated, a.interval_coherent, h⟩

theorem citation_params_violated (aid : AssertionId) (p : Provenance) :
    (citation_params uuid aid p).violated = none := by
  have := p.alignment.2
  simp [ProvenanceRow.violated, citation_params, p.verbatim_short, p.span_real, this.1, this.2]

theorem pending_from_row_params (a : StoredAssertion) (tenant : TenantId) (now : Time) (n : ℕ)
    (d : Option Time) :
    pending_from_row { outbox_params uuid a tenant now with attempts := n, dispatched_at := d } =
      .ok ⟨outbox_id uuid a.assertion_id, a.assertion_id, tenant, a.namespace, a.trace_id⟩ := by
  simp [pending_from_row, outbox_params, JsonObj.ofList, JsonObj.get]

/-- An event read off a row is the row's own. -/
theorem pending_from_row_ok {row : OutboxRow} {e : PendingEvent} (h : pending_from_row row = .ok e) :
    e.outbox_id = row.id ∧ e.assertion_id = row.assertion_id := by
  unfold pending_from_row at h
  split at h
  · simp only [bind_ok, Except.ok.injEq] at h
    obtain ⟨_, -, _, -, _, -, rfl⟩ := h
    exact ⟨rfl, rfl⟩
  · cases h

theorem outbox_id_injective : Function.Injective (outbox_id uuid) := fun _ _ h =>
  (String.append_right_inj "outbox/").mp (uuid.injective h)

/-- What stands before the first separator can be read back. -/
theorem eq_of_append_sep {α : Type} {sep : α} {xs ys : List α} : ∀ {as bs : List α}, sep ∉ as →
    sep ∉ bs → as ++ sep :: xs = bs ++ sep :: ys → as = bs
  | [], [], _, _, _ => rfl
  | [], b :: bs, _, hb, h => by
      simp only [List.nil_append, List.cons_append, List.cons.injEq] at h
      exact absurd (h.1 ▸ List.mem_cons_self) hb
  | a :: as, [], ha, _, h => by
      simp only [List.nil_append, List.cons_append, List.cons.injEq] at h
      exact absurd (h.1 ▸ List.mem_cons_self) ha
  | a :: as, b :: bs, ha, hb, h => by
      simp only [List.cons_append, List.cons.injEq] at h
      rw [h.1, eq_of_append_sep (fun m => ha (List.mem_cons_of_mem _ m))
        (fun m => hb (List.mem_cons_of_mem _ m)) h.2]

/-- What stands after the last separator can be read back. -/
theorem eq_of_sep_append {α : Type} {sep : α} {as bs xs ys : List α} (hx : sep ∉ xs) (hy : sep ∉ ys)
    (h : as ++ sep :: xs = bs ++ sep :: ys) : as = bs ∧ xs = ys := by
  have hreversed : xs.reverse ++ sep :: as.reverse = ys.reverse ++ sep :: bs.reverse := by
    simpa using congrArg List.reverse h
  obtain rfl : xs = ys := List.reverse_injective
    (eq_of_append_sep (mt List.mem_reverse.mp hx) (mt List.mem_reverse.mp hy) hreversed)
  exact ⟨List.append_cancel_right h, rfl⟩

theorem not_mem_toDigits {c : Char} (h : c.isDigit = false) (n : ℕ) : c ∉ Nat.toDigits 10 n := fun hc =>
  Bool.false_ne_true (h.symm.trans (Nat.isDigit_of_mem_toDigits (by decide) (by decide) hc))

/-- The text an id is derived from names the assertion, the document and the span, read from the right. -/
theorem citation_name_inj {aid hash hash' : String} {i j i' j' : ℕ}
    (h : aid ++ "/" ++ hash ++ "/" ++ toString i ++ "-" ++ toString j =
      aid ++ "/" ++ hash' ++ "/" ++ toString i' ++ "-" ++ toString j') :
    hash = hash' ∧ (i, j) = (i', j') := by
  have hname : (aid.toList ++ ['/'] ++ hash.toList ++ ['/'] ++ Nat.toDigits 10 i) ++ '-' :: Nat.toDigits 10 j =
      (aid.toList ++ ['/'] ++ hash'.toList ++ ['/'] ++ Nat.toDigits 10 i') ++ '-' :: Nat.toDigits 10 j' := by
    simpa [Nat.toString_eq_ofList_toDigits] using congrArg String.toList h
  obtain ⟨hfront, hj⟩ := eq_of_sep_append (not_mem_toDigits rfl j) (not_mem_toDigits rfl j') hname
  have hspan : (aid.toList ++ ['/'] ++ hash.toList) ++ '/' :: Nat.toDigits 10 i =
      (aid.toList ++ ['/'] ++ hash'.toList) ++ '/' :: Nat.toDigits 10 i' := by
    simpa using hfront
  obtain ⟨hdocument, hi⟩ := eq_of_sep_append (not_mem_toDigits rfl i) (not_mem_toDigits rfl i') hspan
  rw [Lib.Numeral.toDigits_inj hi, Lib.Numeral.toDigits_inj hj]
  exact ⟨String.toList_injective (List.append_cancel_left hdocument), rfl⟩

/-- Citations that share an id are citations of one assertion. -/
theorem citation_id_assertion {a b : AssertionId} {p q : Provenance} (ha : uuid.valid a = true)
    (hb : uuid.valid b = true) (h : citation_id uuid a p = citation_id uuid b q) : a = b := by
  have hname := congrArg String.toList (uuid.injective h)
  simp only [String.toList_append, List.append_assoc] at hname
  exact String.toList_injective
    (eq_of_append_sep (uuid.slashless a ha) (uuid.slashless b hb) hname)

end GuardMem
