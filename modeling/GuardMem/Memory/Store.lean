import GuardMem.Memory.Rowmap
import GuardMem.Schemas.Verdict
import GuardMem.Pipeline.Conflict
import Mathlib.Tactic.Linarith

/-! The tenant's store and its audit chain: `PgVectorStore` and `audit_store.append`.

    What the process is configured with, and what lies outside the program, is `Deps`: the derived
    ids, the ontology, the embedder, pgvector's distance and the chain's digest. -/

namespace GuardMem

open Lib.Table

/-- What the program is composed with. `embedding` is the embedder on `embed_text`, a rendering of
    predicate and object; `distance` is `<=>`; `digest_for` hashes a payload with its predecessor. -/
structure Deps where
  uuid : Uuid5
  ontology : Ontology
  embedding : String → ObjectValue → List ℚ
  distance : List ℚ → List ℚ → { x : ℚ // 0 ≤ x ∧ x ≤ 2 }
  digest_for : Json → String → String
  casefold : String → String
  thresholds : Thresholds
  policy_version : String

variable (deps : Deps)

/-! ### The audit chain -/

def GENESIS : String := "0000000000000000000000000000000000000000000000000000000000000000"

/-- The head of one tenant's chain. -/
def SELECT_HEAD (tenant : TenantId) (db : Db) : Option String :=
  ((db.audit.filter fun e => e.tenant_id == tenant).getLast?).map AuditRow.digest

/-- The link that follows `prev_digest`. -/
def next_link (tenant : TenantId) (trace : TraceId) (kind : AuditKind) (payload : Json)
    (prev_digest : String) (created_at : Time) : AuditRow :=
  ⟨tenant, trace, kind, payload, prev_digest, deps.digest_for payload prev_digest, created_at⟩

/-- Extend a tenant's chain inside the caller's transaction. -/
def append (tenant : TenantId) (trace : TraceId) (kind : AuditKind) (payload : Json)
    (created_at : Time) (db : Db) : Db :=
  let head := (SELECT_HEAD tenant db).getD GENESIS
  { db with audit := db.audit ++ [next_link deps tenant trace kind payload head created_at] }

/-- Record one decision on the tenant's chain. -/
def append_decision (record : DecisionRecord) (tenant : TenantId) (trace : TraceId)
    (created_at : Time) (db : Db) : Db :=
  append deps tenant trace .DECISION record.model_dump created_at db

@[simp] theorem append_assertions {t tr k p c} {db : Db} :
    (append deps t tr k p c db).assertions = db.assertions := rfl
@[simp] theorem append_provenance {t tr k p c} {db : Db} :
    (append deps t tr k p c db).provenance = db.provenance := rfl
@[simp] theorem append_outbox {t tr k p c} {db : Db} :
    (append deps t tr k p c db).outbox = db.outbox := rfl
@[simp] theorem append_ids {t tr k p c} {db : Db} : (append deps t tr k p c db).ids = db.ids := rfl

/-! ### Writing -/

/-- The three row sets one batch of assertions becomes. -/
structure PreparedWrite where
  assertions : List AssertionRow
  citations : List ProvenanceRow
  events : List OutboxRow

/-- Embed a batch and build its rows, outside any transaction; `none` for an empty batch. -/
def prepare (tenant : TenantId) (now : Time) (assertions : List StoredAssertion) :
    Option PreparedWrite :=
  if assertions = [] then none
  else some
    { assertions := assertions.map fun a =>
        assertion_params a tenant (deps.embedding a.predicate a.object)
      citations := assertions.flatMap (provenance_params deps.uuid)
      events := assertions.map fun a => outbox_params deps.uuid a tenant now }

/-- `connection.executemany`: one statement for each row, in order. -/
def executemany {α : Type} (statement : α → Db → Except Exc Db) : List α → Db → Except Exc Db
  | [], db => .ok db
  | x :: xs, db => do executemany statement xs (← statement x db)

/-- Write a prepared batch inside the caller's transaction. -/
def write_in (tenant : TenantId) (prepared : PreparedWrite) (db : Db) : Except Exc Db := do
  let db ← executemany (INSERT_ASSERTION deps.uuid tenant) prepared.assertions db
  let db ← executemany (INSERT_PROVENANCE tenant) prepared.citations db
  executemany INSERT_OUTBOX prepared.events db

/-- Write assertions, their citations and their outbox events, atomically. -/
def upsert (tenant : TenantId) (now : Time) (assertions : List StoredAssertion) (db : Db) :
    Except Exc Db :=
  match prepare deps tenant now assertions with
  | none => .ok db
  | some prepared => do
      let (_, db) ← transaction (fun db => do .ok ((), ← write_in deps tenant prepared db)) db
      .ok db

/-- The loser of a supersession is told to re-read. -/
def conflict_message (tenant : TenantId) (old : AssertionId) : String :=
  "assertion " ++ old ++ " is not live in tenant " ++ tenant ++ ": it was " ++
    "already superseded, it belongs to another tenant, or the arguments " ++
    "are transposed. Re-read with search() and re-propose."

/-- Retire `old` inside the caller's transaction. Zero rows is a lost race. -/
def supersede_in (tenant : TenantId) (old new : AssertionId) (t : Time) (db : Db) :
    Except Exc Db := do
  let (status, db) ← SUPERSEDE tenant t new old db
  require (status ≠ 0) (.ConcurrencyConflict (conflict_message tenant old))
  .ok db

/-! ### Reading -/

/-- Apply `f` to each element, stopping at the first that raises. -/
def collect {α β : Type} (f : α → Except Exc β) : List α → Except Exc (List β)
  | [] => .ok []
  | x :: xs => do .ok ((← f x) :: (← collect f xs))

/-- Every citation of an assertion. -/
def fetch_citations (db : Db) (aid : AssertionId) : Except Exc (List Provenance) :=
  collect provenance_from_row (SELECT_PROVENANCE aid db)

/-- One row with its citations. -/
def hydrate (db : Db) (row : AssertionRow) : Except Exc StoredAssertion := do
  assertion_from_row row (← fetch_citations db row.id)

/-- What every read of the live store filters on, and the two filters the pipeline binds. -/
def readable (tenant : TenantId) (ns : Namespace) (subject_id : EntityId) (predicate : String)
    (r : AssertionRow) : Bool :=
  r.tenant_id == tenant && r.namespace == ns && r.subject_id == subject_id &&
    r.predicate == predicate && r.visible && r.retracted_at.isNone && r.embedding.isSome &&
    r.valid_to.isNone

/-- `embedding <=> $n`: the rows read carry an embedding. -/
def row_distance (vector : List ℚ) (r : AssertionRow) : { x : ℚ // 0 ≤ x ∧ x ≤ 2 } :=
  deps.distance (r.embedding.getD []) vector

/-- pgvector's `<=>` is a distance and the store publishes similarity. -/
def similarity (d : { x : ℚ // 0 ≤ x ∧ x ≤ 2 }) : Cosine :=
  ⟨1 - d.1, by linarith [d.2.2], by linarith [d.2.1]⟩

/-- `search` with `subject_id` and `predicate` bound and no `as_of`: the `k` nearest live rows. Equal
    distances keep the rows' order. -/
def search (tenant : TenantId) (ns : Namespace) (subject_id : EntityId) (predicate : String)
    (vector : List ℚ) (k : ℕ) (db : Db) : Except Exc (List ScoredAssertion) :=
  let rows := db.assertions.filter (readable tenant ns subject_id predicate)
  let nearest := (rows.insertionSort fun a b =>
    (row_distance deps vector a).1 ≤ (row_distance deps vector b).1).take k
  collect (fun row => do
    .ok ⟨← hydrate db row, similarity (row_distance deps vector row)⟩) nearest

/-! ### Lemmas -/

theorem collect_ok {α β : Type} {f : α → Except Exc β} : ∀ {xs : List α} {ys : List β},
    collect f xs = .ok ys ↔ List.Forall₂ (fun x y => f x = .ok y) xs ys
  | [], ys => by cases ys <;> simp [collect]
  | x :: xs, [] => by simp [collect]
  | x :: xs, y :: ys => by
      simp only [collect, bind_ok, Except.ok.injEq, List.cons.injEq, List.forall₂_cons]
      constructor
      · rintro ⟨_, hy, _, hys, rfl, rfl⟩
        exact ⟨hy, collect_ok.mp hys⟩
      · rintro ⟨hy, hys⟩
        exact ⟨y, hy, ys, collect_ok.mpr hys, rfl, rfl⟩

theorem collect_congr {α β : Type} {f f' : α → Except Exc β} : ∀ {xs : List α},
    (∀ x ∈ xs, f x = f' x) → collect f xs = collect f' xs
  | [], _ => rfl
  | x :: xs, h => by
      rw [collect, collect, h x List.mem_cons_self,
        collect_congr fun y hy => h y (List.mem_cons_of_mem _ hy)]

theorem collect_mem {α β : Type} {f : α → Except Exc β} : ∀ {xs : List α} {ys : List β},
    collect f xs = .ok ys → ∀ y ∈ ys, ∃ x ∈ xs, f x = .ok y
  | [], ys, h, y, hy => by
      obtain rfl := Except.ok.inj h
      exact absurd hy List.not_mem_nil
  | x :: xs, ys, h, y, hy => by
      simp only [collect, bind_ok, Except.ok.injEq] at h
      obtain ⟨z, hz, zs, hzs, rfl⟩ := h
      rcases List.mem_cons.mp hy with rfl | hy
      · exact ⟨x, List.mem_cons_self, hz⟩
      · obtain ⟨q, hq, hfq⟩ := collect_mem hzs y hy
        exact ⟨q, List.mem_cons_of_mem _ hq, hfq⟩

theorem forall₂_of_mem_right {α β : Type} {S : α → β → Prop} {as : List α} {bs : List β}
    (h : List.Forall₂ S as bs) {b : β} (hb : b ∈ bs) : ∃ a ∈ as, S a b := by
  induction h with
  | nil => cases hb
  | cons hab _ ih =>
      rcases List.mem_cons.mp hb with rfl | hb
      · exact ⟨_, List.mem_cons_self, hab⟩
      · obtain ⟨a, ha, hab⟩ := ih hb
        exact ⟨a, List.mem_cons_of_mem _ ha, hab⟩

theorem forall₂_imp_mem {α β : Type} {S T : α → β → Prop} {as : List α} {bs : List β}
    (h : List.Forall₂ S as bs) (hST : ∀ a b, b ∈ bs → S a b → T a b) : List.Forall₂ T as bs := by
  induction h with
  | nil => exact .nil
  | cons hab _ ih =>
      exact .cons (hST _ _ List.mem_cons_self hab) (ih fun a b hb => hST a b (List.mem_cons_of_mem _ hb))

theorem mem_collect {α β : Type} {f : α → Except Exc β} {xs : List α} {ys : List β}
    (h : collect f xs = .ok ys) {y : β} : y ∈ ys ↔ ∃ x ∈ xs, f x = .ok y := by
  refine ⟨collect_mem h y, ?_⟩
  rintro ⟨x, hx, hy⟩
  obtain ⟨y', hy', hfy⟩ := forall₂_of_mem_right (collect_ok.mp h).flip hx
  rwa [← Except.ok.inj (hfy.symm.trans hy)]

theorem executemany_singleton {α : Type} {statement : α → Db → Except Exc Db} {x : α} {db : Db} :
    executemany statement [x] db = statement x db := by
  simp only [executemany]
  cases statement x db <;> rfl

/-- What every row of a batch keeps, the batch keeps. -/
theorem executemany_inv {α : Type} {statement : α → Db → Except Exc Db} {I : Db → Prop} :
    ∀ {xs : List α} {db db' : Db},
      (∀ x ∈ xs, ∀ d d', statement x d = .ok d' → I d → I d') →
      executemany statement xs db = .ok db' → I db → I db'
  | [], db, db', _, h, hi => by
      obtain rfl := Except.ok.inj h
      exact hi
  | x :: xs, db, db', hstep, h, hi => by
      simp only [executemany, bind_ok] at h
      obtain ⟨d, hd, hrest⟩ := h
      exact executemany_inv (fun y hy => hstep y (List.mem_cons_of_mem _ hy)) hrest
        (hstep x List.mem_cons_self db d hd hi)

theorem supersede_in_ok {tenant : TenantId} {old new : AssertionId} {t : Time} {db db' : Db} :
    supersede_in tenant old new t db = .ok db' ↔
      (∃ r ∈ db.assertions, supersedes tenant old r = true) ∧
      (∀ r ∈ db.assertions, supersedes tenant old r = true → (r.retire t new).violated = none) ∧
      new ∈ db.ids ∧
      { db with assertions :=
          updateWhere (supersedes tenant old) (AssertionRow.retire t new) db.assertions } = db' := by
  simp only [supersede_in, bind_ok, Prod.exists, SUPERSEDE_ok, require_ok, Except.ok.injEq]
  constructor
  · rintro ⟨n, d, ⟨hchk, hfk, rfl, rfl⟩, u, hne, rfl⟩
    have hnil : db.assertions.filter (supersedes tenant old) ≠ [] :=
      List.ne_nil_of_length_pos (Nat.pos_of_ne_zero hne)
    obtain ⟨r, hr⟩ := List.exists_mem_of_ne_nil _ hnil
    exact ⟨⟨r, List.mem_filter.mp hr⟩, hchk, hfk.resolve_left hnil, rfl⟩
  · rintro ⟨⟨r, hr⟩, hchk, hnew, rfl⟩
    have hmem : r ∈ db.assertions.filter (supersedes tenant old) := List.mem_filter.mpr hr
    exact ⟨_, _, ⟨hchk, Or.inr hnew, rfl, rfl⟩, (),
      Nat.pos_iff_ne_zero.mp (List.length_pos_of_mem hmem), rfl⟩

/-- A hit is a row the filters admit, read back. -/
theorem search_mem {tenant ns sid pred v k} {db : Db} {hits : List ScoredAssertion}
    (h : search deps tenant ns sid pred v k db = .ok hits) {hit : ScoredAssertion}
    (hhit : hit ∈ hits) :
    ∃ r ∈ db.assertions, readable tenant ns sid pred r = true ∧
      hydrate db r = .ok hit.assertion := by
  obtain ⟨r, hr, hrow⟩ := collect_mem h hit hhit
  simp only [bind_ok, Except.ok.injEq] at hrow
  obtain ⟨a, ha, rfl⟩ := hrow
  have hmem := List.mem_of_mem_take hr
  rw [List.mem_insertionSort, List.mem_filter] at hmem
  exact ⟨r, hmem.1, hmem.2, ha⟩

/-- With one admissible row, that row is the one hit. -/
theorem search_single {tenant ns sid pred v k} {db : Db} {hits : List ScoredAssertion}
    {r : AssertionRow} (hk : 0 < k)
    (hrow : db.assertions.filter (readable tenant ns sid pred) = [r])
    (h : search deps tenant ns sid pred v k db = .ok hits) :
    ∃ hit, hits = [hit] ∧ hydrate db r = .ok hit.assertion := by
  have hall := collect_ok.mp h
  rw [hrow] at hall
  obtain ⟨k, rfl⟩ := Nat.exists_eq_succ_of_ne_zero hk.ne'
  simp only [List.insertionSort_cons, List.insertionSort_nil, List.orderedInsert_nil,
    List.take_succ_cons, List.take_nil] at hall
  cases hall with
  | cons hhead htail =>
      cases htail
      simp only [bind_ok, Except.ok.injEq] at hhead
      obtain ⟨a, ha, heq⟩ := hhead
      exact ⟨_, rfl, by rw [← heq]; exact ha⟩

end GuardMem
