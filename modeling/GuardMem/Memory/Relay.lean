import GuardMem.Memory.Graph
import GuardMem.Memory.Wellformed

/-! The outbox relay: `OutboxRelay.run_once` and the three transactions an event goes through.

    A claim commits before its batch is looked at, and each event is then loaded, written to the
    graph and completed on its own. What the graph answers is the environment's choice. -/

namespace GuardMem

open Lib.Table

/-- The relay's two settings. -/
structure RelayConfig where
  batch_size : ℕ := 50
  max_attempts : ℕ := 5

/-- What `CLAIM_OUTBOX` selects from: undispatched and below the cap. -/
def OutboxRow.pending (cap : ℕ) (o : OutboxRow) : Bool := o.dispatched_at.isNone && o.attempts < cap

/-- The rows a claim could have taken and did not. -/
def passed_over (cfg : RelayConfig) (locked batch : List String) (db : Db) : List OutboxRow :=
  db.outbox.filter fun o =>
    o.pending cfg.max_attempts && !locked.contains o.id && !batch.contains o.id

/-- An answer `CLAIM_OUTBOX` may give while other transactions hold `locked`: `batch` lists the ids
    in the order they are returned, which is any order. It takes the oldest pending rows it can lock,
    up to the batch size. -/
structure IsClaim (cfg : RelayConfig) (locked batch : List String) (db : Db) : Prop where
  nodup : batch.Nodup
  small : batch.length ≤ cfg.batch_size
  pending : ∀ oid ∈ batch, oid ∉ locked ∧
    ∃ o ∈ db.outbox, o.id = oid ∧ o.pending cfg.max_attempts = true
  oldest : ∀ o ∈ passed_over cfg locked batch db, batch.length = cfg.batch_size ∧
    ∀ o' ∈ db.outbox, o'.id ∈ batch → o'.created_at ≤ o.created_at

theorem isClaim_iff {cfg : RelayConfig} {locked batch : List String} {db : Db} :
    IsClaim cfg locked batch db ↔ batch.Nodup ∧ batch.length ≤ cfg.batch_size ∧
      (∀ oid ∈ batch, oid ∉ locked ∧
        ∃ o ∈ db.outbox, o.id = oid ∧ o.pending cfg.max_attempts = true) ∧
      ∀ o ∈ passed_over cfg locked batch db, batch.length = cfg.batch_size ∧
        ∀ o' ∈ db.outbox, o'.id ∈ batch → o'.created_at ≤ o.created_at :=
  ⟨fun h => ⟨h.1, h.2, h.3, h.4⟩, fun h => ⟨h.1, h.2.1, h.2.2.1, h.2.2.2⟩⟩

instance (cfg : RelayConfig) (locked batch : List String) (db : Db) :
    Decidable (IsClaim cfg locked batch db) := decidable_of_iff' _ isClaim_iff

/-- `UPDATE outbox SET attempts = attempts + 1 WHERE id IN (claimed)`. -/
def CLAIM_OUTBOX (batch : List String) (db : Db) : Db :=
  { db with
    outbox := updateWhere (fun o => batch.contains o.id) (fun o => { o with attempts := o.attempts + 1 })
      db.outbox }

/-- The claimed rows, in the order they are returned. -/
def claimed_rows (batch : List String) (db : Db) : List OutboxRow :=
  batch.filterMap fun oid => db.outbox.find? fun o => o.id == oid

/-- The claimed events. The increment has committed by the time a payload is found malformed. -/
def claimed_events (batch : List String) (db : Db) : Except Exc (List PendingEvent) :=
  collect pending_from_row (claimed_rows batch (CLAIM_OUTBOX batch db))

/-- Read the assertion an event refers to, with its provenance; `none` when this tenant cannot see
    it. -/
def load (e : PendingEvent) (db : Db) : Except Exc (Option StoredAssertion) :=
  match SELECT_ASSERTION e.tenant_id e.assertion_id db with
  | none => .ok none
  | some row => do .ok (some (← hydrate db row))

/-- Make the assertion visible and close the outbox row, together. -/
def complete (e : PendingEvent) (t : Time) (db : Db) : Db :=
  MARK_DISPATCHED t e.outbox_id (REVEAL_ASSERTION e.tenant_id e.assertion_id db)

/-- How one call to the graph goes: the store answers, it is unreachable, or the driver raises
    something else. A write may have landed before its call failed. -/
inductive GraphReply where
  | answers
  | unavailable (landed : Bool)
  | raises (e : Exc) (landed : Bool)
  deriving DecidableEq

variable {G : Type} (store : GraphStore G)

/-- The graph after a write that may or may not have landed. -/
def land (landed : Bool) (a : StoredAssertion) (g : G) : G :=
  if landed then
    match store.upsert_assertion a g with
    | .ok g' => g'
    | .error _ => g
  else g

/-- `await self._graph.upsert_assertion(assertion)`. -/
def graph_write (reply : GraphReply) (a : StoredAssertion) (g : G) : Except Exc Unit × G :=
  match reply with
  | .answers =>
      match store.upsert_assertion a g with
      | .ok g' => (.ok (), g')
      | .error e => (.error e, g)
  | .unavailable landed => (.error .StoreUnavailable, land store landed a g)
  | .raises e landed => (.error e, land store landed a g)

/-- Write the graph side of one event and complete it. `true` when the event is finished, `false`
    when it is left for a later pass; only `StoreUnavailable` is caught. -/
def dispatch (reply : GraphReply) (t : Time) (e : PendingEvent) (db : Db) (g : G) :
    Except Exc Bool × Db × G :=
  match load e db with
  | .error exc => (.error exc, db, g)
  | .ok none => (.ok false, db, g)
  | .ok (some a) =>
      match graph_write store reply a g with
      | (.ok (), g) => (.ok true, complete e t db, g)
      | (.error .StoreUnavailable, g) => (.ok false, db, g)
      | (.error exc, g) => (.error exc, db, g)

/-- The loop of `run_once`: the number dispatched, or the first exception. -/
def dispatch_all (replies : PendingEvent → GraphReply) (clock : PendingEvent → Time) :
    List PendingEvent → Db → G → Except Exc ℕ × Db × G
  | [], db, g => (.ok 0, db, g)
  | e :: rest, db, g =>
      match dispatch store (replies e) (clock e) e db g with
      | (.error exc, db, g) => (.error exc, db, g)
      | (.ok finished, db, g) =>
          let (n, db, g) := dispatch_all replies clock rest db g
          (n.map (· + finished.toNat), db, g)

/-- What one pass did. -/
structure RelayRun where
  claimed : ℕ
  dispatched : ℕ
  deriving DecidableEq

/-- Claim a batch and dispatch it, event by event. -/
def run_once (replies : PendingEvent → GraphReply) (clock : PendingEvent → Time) (batch : List String)
    (db : Db) (g : G) : Except Exc RelayRun × Db × G :=
  match claimed_events batch db with
  | .error exc => (.error exc, CLAIM_OUTBOX batch db, g)
  | .ok events =>
      let (n, db, g) := dispatch_all store replies clock events (CLAIM_OUTBOX batch db) g
      (n.map fun dispatched => ⟨events.length, dispatched⟩, db, g)

/-! ### Lemmas -/

variable {store} {uuid : Uuid5} {db : Db} {g g' : G} {a : StoredAssertion} {e : PendingEvent}

theorem Wf.claim {batch : List String} (h : Wf uuid db) : Wf uuid (CLAIM_OUTBOX batch db) := by
  refine h.map_outbox (fun o => ?_) (fun o => ?_) (fun o => ?_) <;> split <;> rfl

theorem Wf.complete {t : Time} (h : Wf uuid db) : Wf uuid (complete e t db) := h.reveal.mark

/-- A claimed event was read off a row of the outbox that the batch lists. -/
theorem claimed_events_mem {batch : List String} {events : List PendingEvent}
    (h : claimed_events batch db = .ok events) (he : e ∈ events) :
    ∃ o ∈ db.outbox, o.id = e.outbox_id ∧ o.assertion_id = e.assertion_id ∧ o.id ∈ batch ∧
      pending_from_row { o with attempts := o.attempts + 1 } = .ok e := by
  obtain ⟨q, hq, hpend⟩ := collect_mem h e he
  obtain ⟨hid, ha⟩ := pending_from_row_ok hpend
  obtain ⟨oid, hoid, hfind⟩ := List.mem_filterMap.mp hq
  have hqid : q.id = oid := by simpa using List.find?_some hfind
  obtain ⟨o, ho, rfl⟩ := mem_updateWhere.mp (List.mem_of_find?_eq_some hfind)
  have hoid' : o.id = oid := by
    rw [← hqid]
    split <;> rfl
  rw [if_pos (by simpa [hoid'] using hoid)] at hid ha hpend
  exact ⟨o, ho, hid.symm, ha.symm, hoid' ▸ hoid, hpend⟩

/-- The attempts are no part of the event. -/
theorem pending_from_row_attempts {o : OutboxRow} {n : ℕ} :
    pending_from_row { o with attempts := n } = pending_from_row o := rfl

/-- A loaded assertion is a row of the event's tenant, read back. -/
theorem load_some (h : load e db = .ok (some a)) :
    ∃ r ∈ db.assertions, r.id = e.assertion_id ∧ r.tenant_id = e.tenant_id ∧
      hydrate db r = .ok a := by
  unfold load at h
  split at h
  · simp at h
  · next row hsel =>
      simp only [bind_ok, Except.ok.injEq, Option.some.injEq, exists_eq_right] at h
      have hrow := List.find?_some hsel
      simp only [Bool.and_eq_true, beq_iff_eq] at hrow
      exact ⟨row, List.mem_of_find?_eq_some hsel, hrow.1, hrow.2, h⟩

/-- A loaded assertion reads its row's columns back. -/
theorem hydrate_ok {r : AssertionRow} (h : hydrate db r = .ok a) :
    a.assertion_id = r.id ∧ a.tenant_id = r.tenant_id ∧ a.subject_id = r.subject_id ∧
      a.predicate = r.predicate ∧ ObjectValue.ofJson r.object_json = some a.object ∧
      a.confidence.1 = r.confidence ∧ a.valid_from = r.valid_from ∧
      a.valid_to = r.valid_to ∧ a.trace_id = r.trace_id := by
  simp only [hydrate, bind_ok] at h
  obtain ⟨_, -, h⟩ := h
  exact assertion_from_row_ok h

/-- Whatever a call did to the graph, it did by upserting that assertion or not at all. -/
theorem graph_write_cases {reply : GraphReply} {r : Except Exc Unit}
    (h : graph_write store reply a g = (r, g')) :
    g' = g ∧ r ≠ .ok () ∨ store.upsert_assertion a g = .ok g' := by
  have hland : ∀ landed, land store landed a g = g ∨
      store.upsert_assertion a g = .ok (land store landed a g) := by
    intro landed
    unfold land
    cases landed with
    | false => exact Or.inl rfl
    | true =>
        cases hu : store.upsert_assertion a g with
        | ok g'' => exact Or.inr (by simp)
        | error _ => exact Or.inl (by simp)
  cases reply with
  | answers =>
      cases hu : store.upsert_assertion a g with
      | ok g'' =>
          simp only [graph_write, hu, Prod.mk.injEq] at h
          exact Or.inr (by rw [h.2])
      | error exc =>
          simp only [graph_write, hu, Prod.mk.injEq] at h
          exact Or.inl ⟨h.2.symm, by rw [← h.1]; simp⟩
  | unavailable landed =>
      simp only [graph_write, Prod.mk.injEq] at h
      obtain ⟨rfl, rfl⟩ := h
      exact (hland landed).imp (fun h => ⟨h, by simp⟩) id
  | raises exc landed =>
      simp only [graph_write, Prod.mk.injEq] at h
      obtain ⟨rfl, rfl⟩ := h
      exact (hland landed).imp (fun h => ⟨h, by simp⟩) id

end GuardMem
