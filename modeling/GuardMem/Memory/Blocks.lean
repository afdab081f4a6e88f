import GuardMem.Clinical
import GuardMem.Lib.Noninterference
import GuardMem.Memory.Sessions
import GuardMem.Memory.Store

/-! The statements of the write path as a pool's connection runs them.

    `Tables` says what each statement of the program does to the four tables, with its tenant as an
    argument and a transaction as a function; here the same statements are sent over a connection, under
    the policies and behind `set_config`. CORRECT: what the connection answers is what `Tables` says, and a
    block that the connection runs by itself commits what `transaction` makes of its statements, or
    nothing (`block_run`). -/

namespace GuardMem.Postgres

open Lib.Staged Lib.Transition Lib.Table

/-! ### The four tables in the rows -/

def Row.as_assertion : Row → Option AssertionRow
  | .assertion r => some r
  | _ => none

def Row.as_provenance : Row → Option ProvenanceRow
  | .provenance r => some r
  | _ => none

def Row.as_outbox : Row → Option OutboxRow
  | .outbox r => some r
  | _ => none

def Row.as_audit : Row → Option AuditRow
  | .audit_event _ r => some r
  | _ => none

def database (rows : List Row) : Db :=
  ⟨rows.filterMap Row.as_assertion, rows.filterMap Row.as_provenance, rows.filterMap Row.as_outbox,
    rows.filterMap Row.as_audit⟩

/-! ### The statements -/

/-- The statements that write. -/
inductive Command where
  | INSERT_ASSERTION (row : AssertionRow)
  | INSERT_PROVENANCE (row : ProvenanceRow)
  | INSERT_OUTBOX (row : OutboxRow)
  | SUPERSEDE (t : Time) (new old : AssertionId)
  | REVEAL_ASSERTION (aid : AssertionId)
  | MARK_DISPATCHED (t : Time) (oid : String)

/-- A SET of one table's rows. -/
def Row.on_assertion (f : AssertionRow → AssertionRow) : Row → Row
  | .assertion r => .assertion (f r)
  | r => r

def Row.on_outbox (f : OutboxRow → OutboxRow) : Row → Row
  | .outbox r => .outbox (f r)
  | r => r

theorem key_on_assertion {f : AssertionRow → AssertionRow} (h : ∀ r, (f r).id = r.id) (r : Row) :
    (r.on_assertion f).key = r.key := by
  cases r with
  | assertion r => exact congrArg Key.assertion (h r)
  | _ => rfl

theorem key_on_outbox {f : OutboxRow → OutboxRow} (h : ∀ r, (f r).id = r.id) (r : Row) :
    (r.on_outbox f).key = r.key := by
  cases r with
  | outbox r => exact congrArg Key.outbox (h r)
  | _ => rfl

/-- What goes over the connection. -/
def Command.statement : Command → Statement
  | .INSERT_ASSERTION row => .insert (.assertion row) true
  | .INSERT_PROVENANCE row => .insert (.provenance row) true
  | .INSERT_OUTBOX row => .insert (.outbox row) true
  | .SUPERSEDE t new old => .update .assertion
      (fun _ r => r.as_assertion.any fun r => r.id == old && r.valid_to.isNone)
      ⟨Row.on_assertion (AssertionRow.retire t new), key_on_assertion fun _ => rfl⟩
  | .REVEAL_ASSERTION aid => .update .assertion (fun _ r => r.as_assertion.any fun r => r.id == aid)
      ⟨Row.on_assertion fun r => { r with visible := true }, key_on_assertion fun _ => rfl⟩
  | .MARK_DISPATCHED t oid => .update .outbox
      (fun _ r => r.as_outbox.any fun o => o.id == oid && o.dispatched_at.isNone)
      ⟨Row.on_outbox fun o => { o with dispatched_at := some t }, key_on_outbox fun _ => rfl⟩

/-- What it does to the tables, and to how many rows. -/
def Command.run (uuid : Uuid5) (tenant : TenantId) (db : Db) : Command → Except Exc (ℕ × Db)
  | .INSERT_ASSERTION row => do
      .ok (if row.id ∈ db.ids then 0 else 1, ← GuardMem.INSERT_ASSERTION uuid tenant row db)
  | .INSERT_PROVENANCE row => do
      .ok (if row.id ∈ db.provenance.map ProvenanceRow.id then 0 else 1,
        ← GuardMem.INSERT_PROVENANCE tenant row db)
  | .INSERT_OUTBOX row => do
      .ok (if row.id ∈ db.outbox.map OutboxRow.id then 0 else 1, ← GuardMem.INSERT_OUTBOX row db)
  | .SUPERSEDE t new old => GuardMem.SUPERSEDE tenant t new old db
  | .REVEAL_ASSERTION aid =>
      .ok ((db.assertions.filter fun r => r.id == aid && r.tenant_id == tenant).length,
        GuardMem.REVEAL_ASSERTION tenant aid db)
  | .MARK_DISPATCHED t oid =>
      .ok ((db.outbox.filter fun o => o.id == oid && o.dispatched_at.isNone).length,
        GuardMem.MARK_DISPATCHED t oid db)

/-- The ids that go into a `uuid` column are ones. -/
def Command.Typed (uuid : Uuid5) : Command → Prop
  | .INSERT_ASSERTION row => uuid.valid row.id = true
  | _ => True

variable {server : Server} {max_size : ℕ} {uuid : Uuid5} {tenant : TenantId} {setting : Option String}
  {rows view : List Row} {r : Row} {reply : Reply} {writes : Writes}

/-! ### The ids of the tables -/

theorem mem_read_ids {α : Type} {read : Row → Option α} {id : α → String} {key : String → Key}
    (h : ∀ r i, (read r).map id = some i ↔ r.key = key i) {i : String} :
    i ∈ (rows.filterMap read).map id ↔ key i ∈ rows.map Row.key := by
  rw [List.map_filterMap, List.mem_filterMap, List.mem_map]
  exact exists_congr fun r => and_congr_right fun _ => h r i

theorem mem_ids {aid : AssertionId} : aid ∈ (database rows).ids ↔ .assertion aid ∈ rows.map Row.key :=
  mem_read_ids fun r i => by cases r <;> simp [Row.as_assertion, Row.key]

theorem mem_provenance_ids {id : String} :
    id ∈ (database rows).provenance.map ProvenanceRow.id ↔ .provenance id ∈ rows.map Row.key :=
  mem_read_ids fun r i => by cases r <;> simp [Row.as_provenance, Row.key]

theorem mem_outbox_ids {id : String} :
    id ∈ (database rows).outbox.map OutboxRow.id ↔ .outbox id ∈ rows.map Row.key :=
  mem_read_ids fun r i => by cases r <;> simp [Row.as_outbox, Row.key]

/-! ### One statement -/

/-- An INSERT that is answered: the row was there, or it met its table's policy and CHECKs, named what is
    there, and is there now. -/
theorem insert_answered {row : Row} (h : execute server setting view (.insert row true) = .ok (reply, writes)) :
    secure server setting view row = .ok () ∧ row.violated = none ∧
      ((row.key ∈ view.map Row.key ∧ reply.count = 0 ∧ staged Row.key view writes = view) ∨
        (row.key ∉ view.map Row.key ∧ (∀ k ∈ row.references, k ∈ view.map Row.key) ∧ reply.count = 1 ∧
          staged Row.key view writes = view ++ [row])) := by
  obtain ⟨_, -, h⟩ := bind_ok.mp h
  obtain ⟨_, hshown, h⟩ := bind_ok.mp h
  obtain ⟨_, hchecks, h⟩ := bind_ok.mp h
  have hviolated : row.violated = none := by
    rw [constrain] at hchecks
    split at hchecks
    · cases hchecks
    · assumption
  refine ⟨hshown, hviolated, ?_⟩
  split at h
  · next hold =>
      obtain ⟨_, -, h⟩ := bind_ok.mp h
      obtain ⟨rfl, rfl⟩ := Prod.mk.inj (Except.ok.inj h)
      exact Or.inl ⟨hold, rfl, rfl⟩
  · next hnew =>
      obtain ⟨_, hcited, h⟩ := bind_ok.mp h
      obtain ⟨rfl, rfl⟩ := Prod.mk.inj (Except.ok.inj h)
      obtain ⟨_, -, hrefs⟩ := bind_ok.mp hcited
      refine Or.inr ⟨hnew, fun k hk => ?_, rfl, staged_insert hnew⟩
      rcases require_ok.mp hrefs k hk with ⟨old, hold, -⟩ | hmem
      · cases hold
      · exact hmem

/-- The rows an UPDATE is about, under a tenant. -/
theorem hits_visible {t : Table} {where_ : List Row → Row → Bool} {seen : List Row}
    (hset : current_tenant server setting = .ok (some tenant)) (h : visible server setting view t = .ok seen) :
    hits t where_ seen =
      view.filter fun r => Decidable.decide (r.table = t) && where_ seen r && policy (some tenant) view r := by
  unfold visible at h
  split at h
  · next hsecured =>
      rw [hset] at h
      obtain rfl := Except.ok.inj h
      rw [hits, List.filter_filter]
      refine List.filter_congr fun r _ => ?_
      by_cases ht : r.table = t
      · simp [ht, hsecured]
      · simp [ht]
  · next hsecured =>
      obtain rfl := Except.ok.inj h
      rw [hits, List.filter_filter]
      refine List.filter_congr fun r _ => ?_
      by_cases ht : r.table = t
      · have houtbox : r.table = .outbox := ht.trans (secured_eq_false.mp (Bool.eq_false_iff.mpr hsecured))
        cases r with
        | outbox o => simp [ht, hsecured, policy]
        | _ => cases houtbox
      · simp [ht]

/-- An UPDATE that is answered: what it replaced met what a replacement has to, and the rows are the
    updated ones. -/
theorem update_answered {t : Table} {w : Row → Bool} {assignment : Assignment}
    (hset : current_tenant server setting = .ok (some tenant)) (hkeys : (view.map Row.key).Nodup)
    (h : execute server setting view (.update t (fun _ => w) assignment) = .ok (reply, writes)) :
    ∃ p : Row → Bool, (∀ r, p r = (Decidable.decide (r.table = t) && w r && policy (some tenant) view r)) ∧
      (∀ r ∈ view, p r = true → replace server setting view assignment r = .ok ()) ∧
      reply.count = (view.filter p).length ∧ staged Row.key view writes = updateWhere p assignment.set view := by
  obtain ⟨_, -, h⟩ := bind_ok.mp h
  obtain ⟨seen, hseen, h⟩ := bind_ok.mp h
  obtain ⟨_, hall, h⟩ := bind_ok.mp h
  obtain ⟨rfl, rfl⟩ := Prod.mk.inj (Except.ok.inj h)
  rw [hits_visible hset hseen] at hall ⊢
  exact ⟨_, fun _ => rfl, fun r hr hp => each_ok.mp hall r (List.mem_filter.mpr ⟨hr, hp⟩), rfl,
    staged_update assignment.key_set hkeys⟩

/-- A row of `assertion` that a replacement may stand for. -/
theorem replace_answered {assignment : Assignment} {a b : AssertionRow}
    (hset : assignment.set (.assertion a) = .assertion b)
    (h : replace server setting view assignment (.assertion a) = .ok ()) :
    b.violated = none ∧ ∀ s ∈ b.superseded_by, a.superseded_by = some s ∨ s ∈ (database view).ids := by
  obtain ⟨_, -, h⟩ := bind_ok.mp h
  obtain ⟨_, hchecks, h⟩ := bind_ok.mp h
  obtain ⟨_, -, hrefs⟩ := bind_ok.mp h
  rw [hset] at hchecks hrefs
  constructor
  · rw [constrain] at hchecks
    split at hchecks
    · cases hchecks
    · assumption
  · intro s hs
    have hkey : Key.assertion s ∈ (Row.assertion b).references := by
      simp [Row.references, Option.mem_def.mp hs]
    rcases require_ok.mp hrefs _ hkey with ⟨old, hold, hk⟩ | hk
    · obtain rfl := Option.some.inj hold
      simp [Row.references] at hk
      exact Or.inl hk
    · exact Or.inr (mem_ids.mpr hk)

/-- The policy of `assertion`. -/
theorem policy_assertion {a : AssertionRow} :
    policy (some tenant) view (.assertion a) = (a.tenant_id == tenant) := by
  simp [policy, Row.tenant_id]

/-- The foreign key of `superseded_by` holds. -/
def Referred (db : Db) : Prop :=
  ∀ a ∈ db.assertions, ∀ s, a.superseded_by = some s → s ∈ db.ids

theorem read_update {α : Type} {read : Row → Option α} {set : Row → Row} {g : α → α} {p : Row → Bool}
    {q : α → Bool} (hset : ∀ r, read (set r) = (read r).map g) (hread : ∀ r ∈ view, p r = (read r).any q) :
    (updateWhere p set view).filterMap read = updateWhere q g (view.filterMap read) := by
  refine filterMap_update fun r hr => ?_
  rw [hread r hr]
  cases hr' : read r with
  | none => simpa using hr'
  | some a =>
      by_cases hq : q a = true
      · simp [hq, hset, hr']
      · simp [hq, hr']

theorem database_on_assertion {p : Row → Bool} {q : AssertionRow → Bool} {g : AssertionRow → AssertionRow}
    (hread : ∀ r ∈ view, p r = r.as_assertion.any q) : database (updateWhere p (Row.on_assertion g) view) =
      { database view with assertions := updateWhere q g (database view).assertions } := by
  rw [database, read_update (fun r => by cases r <;> rfl) hread,
    filterMap_updateWhere fun r _ _ => by cases r <;> rfl, filterMap_updateWhere fun r _ _ => by cases r <;> rfl,
    filterMap_updateWhere fun r _ _ => by cases r <;> rfl]
  rfl

theorem database_on_outbox {p : Row → Bool} {q : OutboxRow → Bool} {g : OutboxRow → OutboxRow}
    (hread : ∀ r ∈ view, p r = r.as_outbox.any q) : database (updateWhere p (Row.on_outbox g) view) =
      { database view with outbox := updateWhere q g (database view).outbox } := by
  rw [database, read_update (fun r => by cases r <;> rfl) hread,
    filterMap_updateWhere fun r _ _ => by cases r <;> rfl, filterMap_updateWhere fun r _ _ => by cases r <;> rfl,
    filterMap_updateWhere fun r _ _ => by cases r <;> rfl]
  rfl

/-- A row that row-level security lets a tenant write is one that it lets it read. -/
theorem policy_of_secure {row : Row} (hset : current_tenant server setting = .ok (some tenant))
    (hsecured : row.table ≠ .outbox) (h : secure server setting view row = .ok ()) :
    policy (some tenant) view row = true := by
  rcases permitted_of_secure h with hpublic | ⟨t, ht, hpolicy⟩
  · exact absurd hpublic hsecured
  · obtain rfl := Option.some.inj (Except.ok.inj (hset.symm.trans ht))
    exact hpolicy

theorem execute_insert_assertion {row : AssertionRow}
    (hset : current_tenant server setting = .ok (some tenant))
    (htyped : uuid.valid row.id = true)
    (h : execute server setting view (.insert (.assertion row) true) = .ok (reply, writes)) :
    (Command.INSERT_ASSERTION row).run uuid tenant (database view) =
      .ok (reply.count, database (staged Row.key view writes)) := by
  obtain ⟨hshown, hviolated, hrow⟩ := insert_answered h
  have htenant : row.tenant_id = tenant := by
    simpa [policy_assertion] using policy_of_secure hset (by simp [Row.table, Row.key, Key.table]) hshown
  rcases hrow with ⟨hold, hcount, hover⟩ | ⟨hnew, hrefs, hcount, hover⟩
  · have hid : row.id ∈ (database view).ids := mem_ids.mpr hold
    have hdone := INSERT_ASSERTION_ok.mpr ⟨htyped, hviolated, htenant, Or.inl hid, rfl⟩
    rw [Command.run, hdone, hcount, hover, if_pos hid, insertNew_old hid]
    rfl
  · have hid : row.id ∉ (database view).ids := fun hid => hnew (mem_ids.mp hid)
    have hsuper : ∀ s ∈ row.superseded_by,
        s ∈ (insertNew AssertionRow.id row (database view).assertions).map AssertionRow.id := by
      intro s hs
      rw [insertNew_new hid, List.map_append]
      refine List.mem_append_left _ (mem_ids.mpr (hrefs _ ?_))
      simp [Row.references, Option.mem_def.mp hs]
    have hdone := INSERT_ASSERTION_ok.mpr ⟨htyped, hviolated, htenant, Or.inr hsuper, rfl⟩
    rw [Command.run, hdone, hcount, hover, if_neg hid, insertNew_new hid]
    simp [database, Row.as_assertion, Row.as_provenance, Row.as_outbox, Row.as_audit, bind, Except.bind]

theorem execute_insert_provenance {row : ProvenanceRow}
    (hset : current_tenant server setting = .ok (some tenant))
    (h : execute server setting view (.insert (.provenance row) true) = .ok (reply, writes)) :
    (Command.INSERT_PROVENANCE row).run uuid tenant (database view) =
      .ok (reply.count, database (staged Row.key view writes)) := by
  obtain ⟨hshown, hviolated, hrow⟩ := insert_answered h
  have hspan : row.span_start ≤ row.span_end := by
    have hchecks : row.violated = none := hviolated
    unfold ProvenanceRow.violated at hchecks
    split_ifs at hchecks with h₁ h₂ h₃
    exact h₃.le
  have hsees : (database view).sees tenant row.assertion_id := by
    have hpolicy := policy_of_secure hset (by simp [Row.table, Row.key, Key.table]) hshown
    obtain ⟨x, hx, hshows⟩ := List.any_eq_true.mp hpolicy
    cases x with
    | assertion a =>
        simp only [Bool.and_eq_true, beq_iff_eq, Option.some.injEq] at hshows
        exact ⟨a, List.mem_filterMap.mpr ⟨_, hx, rfl⟩, hshows.1, hshows.2⟩
    | _ => cases hshows
  have hdone := INSERT_PROVENANCE_ok.mpr ⟨hspan, hviolated, hsees, rfl⟩
  rcases hrow with ⟨hold, hcount, hover⟩ | ⟨hnew, -, hcount, hover⟩
  · have hid := mem_provenance_ids.mpr hold
    rw [Command.run, hdone, hcount, hover, if_pos hid, insertNew_old hid]
    rfl
  · have hid := fun hid => hnew (mem_provenance_ids.mp hid)
    rw [Command.run, hdone, hcount, hover, if_neg hid, insertNew_new hid]
    simp [database, Row.as_assertion, Row.as_provenance, Row.as_outbox, Row.as_audit, bind, Except.bind]

theorem execute_insert_outbox {row : OutboxRow}
    (h : execute server setting view (.insert (.outbox row) true) = .ok (reply, writes)) :
    (Command.INSERT_OUTBOX row).run uuid tenant (database view) =
      .ok (reply.count, database (staged Row.key view writes)) := by
  obtain ⟨-, -, hrow⟩ := insert_answered h
  rcases hrow with ⟨hold, hcount, hover⟩ | ⟨hnew, hrefs, hcount, hover⟩
  · have hid := mem_outbox_ids.mpr hold
    rw [Command.run, INSERT_OUTBOX_ok.mpr ⟨Or.inl hid, rfl⟩, hcount, hover, if_pos hid, insertNew_old hid]
    rfl
  · have hid := fun hid => hnew (mem_outbox_ids.mp hid)
    have hcited := mem_ids.mpr (hrefs _ (List.mem_singleton.mpr rfl))
    rw [Command.run, INSERT_OUTBOX_ok.mpr ⟨Or.inr hcited, rfl⟩, hcount, hover, if_neg hid, insertNew_new hid]
    simp [database, Row.as_assertion, Row.as_provenance, Row.as_outbox, Row.as_audit, bind, Except.bind]

theorem execute_supersede {t : Time} {new old : AssertionId}
    (hset : current_tenant server setting = .ok (some tenant)) (hkeys : (view.map Row.key).Nodup)
    (hreferred : Referred (database view))
    (h : execute server setting view (Command.SUPERSEDE t new old).statement = .ok (reply, writes)) :
    SUPERSEDE tenant t new old (database view) = .ok (reply.count, database (staged Row.key view writes)) := by
  obtain ⟨p, hp, hreplaced, hcount, hover⟩ := update_answered hset hkeys h
  have hread : ∀ r ∈ view, p r = r.as_assertion.any (supersedes tenant old) := by
    intro r _
    rw [hp]
    cases r <;> simp [Row.table, Row.key, Key.table, Row.as_assertion, supersedes, policy_assertion]
  have hlength := length_filter_read hread
  have hhit : ∀ a ∈ (database view).assertions, supersedes tenant old a = true →
      replace server setting view
        ⟨Row.on_assertion (AssertionRow.retire t new), key_on_assertion fun _ => rfl⟩
          (.assertion a) = .ok () := by
    intro a ha hq
    obtain ⟨r, hr, hread'⟩ := List.mem_filterMap.mp ha
    cases r <;> cases hread'
    exact hreplaced _ hr ((hread _ hr).trans hq)
  refine SUPERSEDE_ok.mpr ⟨fun a ha hq => (replace_answered rfl (hhit a ha hq)).1, ?_, ?_, ?_⟩
  · rcases hfound : (database view).assertions.filter (supersedes tenant old) with _ | ⟨a, rest⟩
    · exact Or.inl rfl
    · obtain ⟨ha, hq⟩ := List.mem_filter.mp (hfound ▸ List.mem_cons_self : a ∈ List.filter _ _)
      rcases (replace_answered rfl (hhit a ha hq)).2 new rfl with hold | hnew
      · exact Or.inr (hreferred a ha new hold)
      · exact Or.inr hnew
  · rw [hcount, hlength]
    rfl
  · rw [hover, database_on_assertion hread]

/-- What a connection answers to a statement of the program is what `Tables` says of it. -/
theorem execute_command {k : Command} (hset : current_tenant server setting = .ok (some tenant))
    (hkeys : (view.map Row.key).Nodup) (hreferred : Referred (database view)) (htyped : k.Typed uuid)
    (h : execute server setting view k.statement = .ok (reply, writes)) :
    k.run uuid tenant (database view) = .ok (reply.count, database (staged Row.key view writes)) := by
  cases k with
  | INSERT_ASSERTION row => exact execute_insert_assertion hset htyped h
  | INSERT_PROVENANCE row => exact execute_insert_provenance hset h
  | INSERT_OUTBOX row => exact execute_insert_outbox h
  | SUPERSEDE t new old => exact execute_supersede hset hkeys hreferred h
  | REVEAL_ASSERTION aid =>
      obtain ⟨p, hp, -, hcount, hover⟩ := update_answered hset hkeys h
      have hread : ∀ r ∈ view, p r = r.as_assertion.any fun a => a.id == aid && a.tenant_id == tenant := by
        intro r _
        rw [hp]
        cases r <;> simp [Row.table, Row.key, Key.table, Row.as_assertion, policy_assertion]
      rw [Command.run, hover, database_on_assertion hread, hcount, length_filter_read hread]
      rfl
  | MARK_DISPATCHED t oid =>
      obtain ⟨p, hp, -, hcount, hover⟩ := update_answered hset hkeys h
      have hread : ∀ r ∈ view, p r = r.as_outbox.any fun o => o.id == oid && o.dispatched_at.isNone := by
        intro r _
        rw [hp]
        cases r <;> simp [Row.table, Row.key, Key.table, Row.as_outbox, policy]
      rw [Command.run, hover, database_on_outbox hread, hcount, length_filter_read hread]
      rfl

/-! ### A block -/

/-- One statement after another; the first that raises ends the block. -/
def runs (uuid : Uuid5) (tenant : TenantId) : List Command → Db → Except Exc Db
  | [], db => .ok db
  | k :: ks, db => do
      let (_, db) ← k.run uuid tenant db
      runs uuid tenant ks db

/-- The statements of `write_in`, one after another. -/
def statements (prepared : PreparedWrite) : List Command :=
  prepared.assertions.map .INSERT_ASSERTION ++ prepared.citations.map .INSERT_PROVENANCE ++
    prepared.events.map .INSERT_OUTBOX

theorem runs_append {ks ms : List Command} : ∀ {db : Db}, runs uuid tenant (ks ++ ms) db =
    (do runs uuid tenant ms (← runs uuid tenant ks db)) := by
  induction ks with
  | nil => exact fun {_} => rfl
  | cons k ks ih =>
      intro db
      rw [List.cons_append, runs, runs]
      cases k.run uuid tenant db with
      | error e => rfl
      | ok result => exact ih

/-- What is counted beside a result is not in it. -/
theorem uncounted {n : ℕ} {x : Except Exc Db} :
    (do let (_, db) ← (do .ok (n, ← x) : Except Exc (ℕ × Db)); .ok db) = x := by
  cases x <;> rfl

theorem runs_executemany {α : Type} {command : α → Command} {statement : α → Db → Except Exc Db}
    (h : ∀ x db, (do let (_, db) ← (command x).run uuid tenant db; .ok db) = statement x db) :
    ∀ {xs : List α} {db : Db}, runs uuid tenant (xs.map command) db = executemany statement xs db
  | [], _ => rfl
  | x :: xs, db => by
      rw [List.map_cons, runs, executemany, ← h]
      cases (command x).run uuid tenant db with
      | error e => rfl
      | ok result => exact runs_executemany h

/-- `write_in` does to the tables what its statements do. -/
theorem runs_write_in {deps : Deps} {prepared : PreparedWrite} {db : Db} :
    runs deps.uuid tenant (statements prepared) db = write_in deps tenant prepared db := by
  have hassertions : ∀ xs db, runs deps.uuid tenant (xs.map .INSERT_ASSERTION) db =
      executemany (INSERT_ASSERTION deps.uuid tenant) xs db :=
    fun _ _ => runs_executemany fun _ _ => uncounted
  have hcitations : ∀ xs db, runs deps.uuid tenant (xs.map .INSERT_PROVENANCE) db =
      executemany (INSERT_PROVENANCE tenant) xs db :=
    fun _ _ => runs_executemany fun _ _ => uncounted
  have hevents : ∀ xs db, runs deps.uuid tenant (xs.map .INSERT_OUTBOX) db = executemany INSERT_OUTBOX xs db :=
    fun _ _ => runs_executemany fun _ _ => uncounted
  rw [statements, runs_append, runs_append, write_in, hassertions]
  cases executemany (INSERT_ASSERTION deps.uuid tenant) prepared.assertions db with
  | error e => rfl
  | ok db₁ =>
      change (runs deps.uuid tenant _ db₁ >>= fun db => runs deps.uuid tenant _ db) =
        (executemany (INSERT_PROVENANCE tenant) prepared.citations db₁ >>=
          fun db => executemany INSERT_OUTBOX prepared.events db)
      rw [hcitations]
      exact congrArg _ (funext fun db => hevents _ db)

/-- An update that keeps the ids, and names rows that are there. -/
theorem referred_update {db : Db} {q : AssertionRow → Bool} {g : AssertionRow → AssertionRow}
    (hid : ∀ a, (g a).id = a.id)
    (hg : ∀ a ∈ db.assertions, q a = true → ∀ s, (g a).superseded_by = some s → s ∈ db.ids)
    (hdb : Referred db) : Referred { db with assertions := updateWhere q g db.assertions } := by
  have hids : (updateWhere q g db.assertions).map AssertionRow.id = db.ids := map_updateWhere hid
  intro a ha s hs
  change s ∈ List.map AssertionRow.id _
  rw [hids]
  obtain ⟨b, hb, rfl⟩ := mem_updateWhere.mp ha
  by_cases hq : q b = true
  · rw [if_pos hq] at hs
    exact hg b hb hq s hs
  · rw [if_neg hq] at hs
    exact hdb b hb s hs

theorem referred_run {k : Command} {db db' : Db} {n : ℕ} (h : k.run uuid tenant db = .ok (n, db'))
    (hdb : Referred db) : Referred db' := by
  cases k with
  | INSERT_ASSERTION row =>
      obtain ⟨db₁, hdone, heq⟩ := GuardMem.bind_ok.mp h
      obtain ⟨-, rfl⟩ := Prod.mk.inj (Except.ok.inj heq)
      obtain ⟨-, -, -, hsuper, rfl⟩ := INSERT_ASSERTION_ok.mp hdone
      intro a ha s hs
      have hkept : ∀ i ∈ db.ids, i ∈ (insertNew AssertionRow.id row db.assertions).map AssertionRow.id := by
        intro i hi
        obtain ⟨b, hb, rfl⟩ := List.mem_map.mp hi
        exact List.mem_map_of_mem (mem_insertNew_of_mem hb)
      rcases mem_insertNew.mp ha with ha | ⟨rfl, hnew⟩
      · exact hkept s (hdb a ha s hs)
      · exact (hsuper.resolve_left hnew) s hs
  | INSERT_PROVENANCE row =>
      obtain ⟨db₁, hdone, heq⟩ := GuardMem.bind_ok.mp h
      obtain ⟨-, rfl⟩ := Prod.mk.inj (Except.ok.inj heq)
      obtain ⟨-, -, -, rfl⟩ := INSERT_PROVENANCE_ok.mp hdone
      exact hdb
  | INSERT_OUTBOX row =>
      obtain ⟨db₁, hdone, heq⟩ := GuardMem.bind_ok.mp h
      obtain ⟨-, rfl⟩ := Prod.mk.inj (Except.ok.inj heq)
      obtain ⟨-, rfl⟩ := INSERT_OUTBOX_ok.mp hdone
      exact hdb
  | SUPERSEDE t new old =>
      obtain ⟨-, hnew, -, rfl⟩ := SUPERSEDE_ok.mp h
      refine referred_update (fun _ => rfl) (fun a ha hq s hs => ?_) hdb
      obtain rfl := Option.some.inj hs
      rcases hnew with hnone | hnew
      · rw [List.filter_eq_nil_iff] at hnone
        exact absurd hq (hnone a ha)
      · exact hnew
  | REVEAL_ASSERTION aid =>
      obtain ⟨-, rfl⟩ := Prod.mk.inj (Except.ok.inj h)
      exact referred_update (fun _ => rfl) (fun a ha _ s hs => hdb a ha s hs) hdb
  | MARK_DISPATCHED t oid =>
      obtain ⟨-, rfl⟩ := Prod.mk.inj (Except.ok.inj h)
      exact hdb

/-! ### A block among others -/

/-- The connection a step is of. -/
def Label.conn : Label → ℕ
  | .acquire c _ | .set_config c | .execute c _ | .commit c _ | .rollback c _ | .lose c => c

/-- No other connection commits. -/
def Quiet (c : ℕ) (ls : List Label) : Prop := ∀ l ∈ ls, ∀ d reset, l = .commit d reset → d = c

variable {s s' t : State} {c : ℕ} {l : Label} {ls : List Label}

theorem others_step (h : Stepped server max_size s l s') (hne : l.conn ≠ c)
    (hquiet : ∀ d reset, l = .commit d reset → d = c) : s'.conns c = s.conns c ∧ s'.rows = s.rows := by
  have move : ∀ d conn, d ≠ c → (s.set d conn).conns c = s.conns c := fun d conn hd =>
    State.set_conns_of_ne s conn (Ne.symm hd)
  cases h with
  | committed held ready sound sourced => exact absurd (hquiet _ _ rfl) hne
  | _ => exact ⟨move _ _ hne, rfl⟩

theorem others_run : ∀ {ls : List Label} {s t : State}, run (step server max_size) s ls = some t →
    (∀ l ∈ ls, l.conn ≠ c) → Quiet c ls → t.conns c = s.conns c ∧ t.rows = s.rows
  | [], s, t, h, _, _ => by
      obtain rfl := Option.some.inj h
      exact ⟨rfl, rfl⟩
  | l :: ls, s, t, h, hne, hquiet => by
      obtain ⟨s₁, hs, hr⟩ := run_cons.mp h
      obtain ⟨hl, hne⟩ := List.forall_mem_cons.mp hne
      obtain ⟨hql, hquiet⟩ := List.forall_mem_cons.mp hquiet
      obtain ⟨hconn, hrows⟩ := others_run hr hne hquiet
      obtain ⟨hconn₁, hrows₁⟩ := others_step (stepped hs) hl hql
      exact ⟨hconn.trans hconn₁, hrows.trans hrows₁⟩

/-- The connection's first step comes on the rows and the connection as they were. -/
theorem first_step {rest : List Label} (hls : ls.filter (fun l => Decidable.decide (l.conn = c)) = l :: rest)
    (hquiet : Quiet c ls) (h : run (step server max_size) s ls = some t) :
    ∃ s₁ s₂ post, s₁.conns c = s.conns c ∧ s₁.rows = s.rows ∧ Stepped server max_size s₁ l s₂ ∧
      post.filter (fun l => Decidable.decide (l.conn = c)) = rest ∧ Quiet c post ∧
      run (step server max_size) s₂ post = some t := by
  obtain ⟨pre, post, rfl, hpre, hpost, -⟩ := Lib.Noninterference.exists_first hls
  obtain ⟨s₁, hs₁, hr⟩ := run_append.mp h
  obtain ⟨s₂, hs₂, hr⟩ := run_cons.mp hr
  obtain ⟨hconn, hrows⟩ := others_run hs₁ (fun l hl => of_decide_eq_false (hpre l hl))
    fun l hl => hquiet l (List.mem_append_left _ hl)
  exact ⟨s₁, s₂, post, hconn, hrows, stepped hs₂, hpost,
    fun l hl => hquiet l (List.mem_append_right _ (List.mem_cons_of_mem _ hl)), hr⟩

/-- A block begins with nothing written. -/
theorem acquire_step {raw : Option String} (h : Stepped server max_size s (.acquire c raw) s') :
    s'.rows = s.rows ∧ ∃ session, (s'.conns c).session = some session ∧ session.tenant = raw ∧
      session.writes = [] := by
  cases h with
  | acquire idle room =>
      refine ⟨rfl, ?_⟩
      rw [State.set_conns_self]
      exact ⟨_, rfl, rfl, rfl⟩

theorem set_config_step (h : Stepped server max_size s (.set_config c) s') {session : Session} {raw : String}
    (hheld : (s.conns c).session = some session) (hraw : session.tenant = some raw) :
    s'.rows = s.rows ∧ (s'.conns c).setting = some raw ∧
      ∃ session', (s'.conns c).session = some session' ∧ session'.writes = session.writes := by
  cases h with
  | @set_config _ session' raw' held wanted once =>
      obtain rfl := Option.some.inj (held.symm.trans hheld)
      obtain rfl := Option.some.inj (wanted.symm.trans hraw)
      refine ⟨rfl, ?_⟩
      rw [State.set_conns_self]
      exact ⟨rfl, _, rfl, rfl⟩

/-- Only a block that has not failed has a statement run. -/
theorem execute_sound {statement : Statement} {session : Session}
    (h : Stepped server max_size s (.execute c statement) s') (hheld : (s.conns c).session = some session) :
    session.failed = false := by
  cases h with
  | answered held ready sound free done =>
      obtain rfl := Option.some.inj (held.symm.trans hheld)
      exact sound
  | refused held ready sound bad =>
      obtain rfl := Option.some.inj (held.symm.trans hheld)
      exact sound

/-- A statement of the block failed it, or did what it does by itself. -/
theorem execute_step {k : Command} (h : Stepped server max_size s (.execute c k.statement) s')
    {session : Session} (hheld : (s.conns c).session = some session)
    (hset : current_tenant server (s.conns c).setting = .ok (some tenant))
    (hkeys : (s.rows.map Row.key).Nodup) (hreferred : Referred (database (session.view s.rows)))
    (htyped : k.Typed uuid) :
    s'.rows = s.rows ∧ (s'.conns c).setting = (s.conns c).setting ∧
      ∃ session', (s'.conns c).session = some session' ∧ (session'.failed = true ∨
        ∃ n, k.run uuid tenant (database (session.view s.rows)) = .ok (n, database (session'.view s.rows))) := by
  cases h with
  | @answered _ _ session' reply writes held ready sound free done =>
      obtain rfl := Option.some.inj (held.symm.trans hheld)
      have hrun := execute_command hset (nodup_staged hkeys) hreferred htyped done
      refine ⟨rfl, ?_⟩
      change ((s.set c _).conns c).setting = _ ∧ ∃ session', ((s.set c _).conns c).session = some session' ∧ _
      rw [State.set_conns_self]
      refine ⟨rfl, _, rfl, Or.inr ⟨reply.count, ?_⟩⟩
      rw [← staged_append] at hrun
      exact hrun
  | @refused _ _ session' e held ready sound bad =>
      obtain rfl := Option.some.inj (held.symm.trans hheld)
      refine ⟨rfl, ?_⟩
      rw [State.set_conns_self]
      exact ⟨rfl, _, rfl, Or.inl rfl⟩

/-- The statements of a block, one after another: one failed, or they did what they do by themselves. -/
theorem executes_run {rest : List Label} (hset : current_tenant server setting = .ok (some tenant))
    (hkeys : (rows.map Row.key).Nodup) : ∀ {ks : List Command} {ls : List Label} {s : State} {session : Session},
    ls.filter (fun l => Decidable.decide (l.conn = c)) = ks.map (fun k => .execute c k.statement) ++ rest →
    Quiet c ls →
    run (step server max_size) s ls = some t → (s.conns c).session = some session →
    (s.conns c).setting = setting → s.rows = rows → Referred (database (session.view rows)) →
    (∀ k ∈ ks, k.Typed uuid) →
    ∃ s₁ post session₁, s₁.rows = rows ∧ (s₁.conns c).session = some session₁ ∧
      (session₁.failed = true ∨
        runs uuid tenant ks (database (session.view rows)) = .ok (database (session₁.view rows))) ∧
      post.filter (fun l => Decidable.decide (l.conn = c)) = rest ∧ Quiet c post ∧
      run (step server max_size) s₁ post = some t
  | [], ls, s, session, hls, hquiet, h, hheld, _, hrows, _, _ =>
      ⟨s, ls, session, hrows, hheld, Or.inr rfl, hls, hquiet, h⟩
  | k :: ks, ls, s, session, hls, hquiet, h, hheld, hconn, hrows, hreferred, htyped => by
      obtain ⟨s₁, s₂, post, hconn₁, hrows₁, hstep, hpost, hquiet, hr⟩ := first_step hls hquiet h
      obtain ⟨hk, htyped⟩ := List.forall_mem_cons.mp htyped
      have hrows₁ : s₁.rows = rows := hrows₁.trans hrows
      rw [← hconn₁] at hheld hconn
      obtain ⟨hrows₂, hconn₂, session₂, hheld₂, hdone⟩ :=
        execute_step hstep hheld (hconn ▸ hset) (hrows₁ ▸ hkeys) (hrows₁ ▸ hreferred) hk
      rw [hrows₁] at hrows₂ hdone
      rcases hdone with hfailed | ⟨n, hrun⟩
      · -- after a failure the block has no further statement
        cases ks with
        | nil => exact ⟨s₂, post, session₂, hrows₂, hheld₂, Or.inl hfailed, hpost, hquiet, hr⟩
        | cons k' ks' =>
            obtain ⟨s₃, s₄, post', hconn₃, -, hstep', -⟩ := first_step hpost hquiet hr
            rw [execute_sound hstep' (hconn₃ ▸ hheld₂)] at hfailed
            cases hfailed
      · obtain ⟨s₃, post', session₃, hrows₃, hheld₃, hdone, hrest⟩ :=
          executes_run hset hkeys hpost hquiet hr hheld₂ (hconn₂.trans hconn) hrows₂
            (referred_run hrun hreferred) htyped
        refine ⟨s₃, post', session₃, hrows₃, hheld₃, hdone.imp_right fun hdone => ?_, hrest⟩
        rw [runs, hrun]
        exact hdone

/-- COMMIT puts what the block sees in place of the rows, if the trigger finds nothing; else nothing. -/
theorem commit_step {reset : Bool} (h : Stepped server max_size s (.commit c reset) s') {session : Session}
    (hheld : (s.conns c).session = some session) : s'.rows = s.rows ∨
      (session.failed = false ∧ s'.rows = session.view s.rows ∧
        ∀ a ∈ (database (session.view s.rows)).assertions,
          GuardMem.unsourced (database s.rows) (database (session.view s.rows)) a = false) := by
  cases h with
  | aborted held ready bad => exact Or.inl rfl
  | @committed _ _ session' held ready sound sourced =>
      obtain rfl := Option.some.inj (held.symm.trans hheld)
      refine Or.inr ⟨sound, rfl, fun a ha => ?_⟩
      obtain ⟨r, hr, hread⟩ := List.mem_filterMap.mp ha
      cases r <;> cases hread
      have hnot := sourced _ hr
      rw [GuardMem.unsourced, Bool.and_eq_false_iff, decide_eq_false_iff_not, not_not, List.all_eq_false]
      rw [unsourced, Bool.and_eq_false_iff, decide_eq_false_iff_not, not_not] at hnot
      rcases hnot with hold | hcited
      · exact Or.inl (mem_ids.mpr hold)
      · right
        split at hcited
        · rw [Bool.not_eq_false', List.any_eq_true] at hcited
          obtain ⟨x, hx, hcites⟩ := hcited
          split at hcites
          · next p =>
              rw [Bool.and_eq_true, beq_iff_eq] at hcites
              exact ⟨p, List.mem_filterMap.mpr ⟨_, hx, rfl⟩, by simp [hcites.1]⟩
          · cases hcites
        · cases hcited

/-- CORRECT: a tenant's block on one connection, whatever the others do short of a COMMIT while it runs,
    ends with the rows as they were, or commits what `transaction` makes of its statements. -/
theorem block_run {ks : List Command} {raw : String} {reset : Bool}
    (hraw : current_tenant server (some raw) = .ok (some tenant)) (hkeys : (s.rows.map Row.key).Nodup)
    (hreferred : Referred (database s.rows)) (htyped : ∀ k ∈ ks, k.Typed uuid) (hquiet : Quiet c ls)
    (hls : ls.filter (fun l => Decidable.decide (l.conn = c)) =
      .acquire c (some raw) :: .set_config c :: (ks.map fun k => .execute c k.statement) ++ [.commit c reset])
    (h : run (step server max_size) s ls = some t) :
    t.rows = s.rows ∨ transaction (fun db => do .ok ((), ← runs uuid tenant ks db)) (database s.rows) =
      .ok ((), database t.rows) := by
  obtain ⟨s₁, s₂, post, -, hrows₁, hstep, hpost, hquiet, hr⟩ := first_step hls hquiet h
  obtain ⟨hrows₂, session, hheld, htenant, hwrites⟩ := acquire_step hstep
  obtain ⟨s₃, s₄, post, hconn₃, hrows₃, hstep, hpost, hquiet, hr⟩ := first_step hpost hquiet hr
  obtain ⟨hrows₄, hsetting, session', hheld', hwrites'⟩ := set_config_step hstep (hconn₃ ▸ hheld) htenant
  have hrows : s₄.rows = s.rows := hrows₄.trans (hrows₃.trans (hrows₂.trans hrows₁))
  have hview : session'.view s.rows = s.rows := by rw [Session.view, hwrites', hwrites, staged_nil]
  obtain ⟨s₅, post, session₅, hrows₅, hheld₅, hdone, hpost, hquiet, hr⟩ :=
    executes_run (hsetting ▸ hraw) hkeys hpost hquiet hr hheld' rfl hrows (hview.symm ▸ hreferred) htyped
  obtain ⟨s₆, s₇, post, hconn₆, hrows₆, hstep, hpost, hquiet, hr⟩ := first_step hpost hquiet hr
  -- after the COMMIT the connection takes no step
  obtain ⟨-, hlast⟩ := others_run hr (fun l hl hc => by
    have hnot := List.filter_eq_nil_iff.mp hpost l hl
    simp [hc] at hnot) hquiet
  rw [hlast]
  rcases commit_step hstep (hconn₆ ▸ hheld₅) with hnothing | ⟨hsound, hcommit, hsourced⟩
  · exact Or.inl (hnothing.trans (hrows₆.trans hrows₅))
  · right
    rw [hrows₆.trans hrows₅] at hcommit hsourced
    rcases hdone with hfailed | hdone
    · rw [hsound] at hfailed
      cases hfailed
    · rw [hview] at hdone
      rw [hcommit, transaction_ok]
      exact ⟨by rw [hdone]; rfl, hsourced⟩

/-! ### One write beside a read -/

def visit : AssertionRow :=
  ⟨"a1", "north", "patient:1", "p1", "takes", .str "statin", 1, 0, 0, none, 0, none, none, 1, "t1", false, none⟩

def written_visit : List Command :=
  [.INSERT_ASSERTION visit, .INSERT_PROVENANCE ⟨"c1", "a1", "h", 0, 4, "verified_user", "text", 1, 0⟩,
    .INSERT_OUTBOX ⟨"o1", "a1", .null, 0, 0, none⟩, .REVEAL_ASSERTION "a1"]

/-- A block writes and another reads, statement by statement in turn. -/
def beside : List Label :=
  .acquire 0 (some "north") :: .acquire 1 (some "south") :: .set_config 0 :: .set_config 1 ::
    written_visit.flatMap (fun k => [.execute 0 k.statement, .execute 1 (.select .assertion fun _ _ => true)]) ++
    [.commit 0 false, .rollback 1 false]

theorem block_run_visit : ∃ t, run (step clinics 2) (State.init patients) beside = some t ∧ (t.rows = patients ∨
    transaction (fun db => do .ok ((), ← runs Clinical.uuid "north" written_visit db)) (database patients) =
      .ok ((), database t.rows)) := by
  have hrun : (run (step clinics 2) (State.init patients) beside).isSome = true := rfl
  obtain ⟨t, ht⟩ := Option.isSome_iff_exists.mp hrun
  have hreferred : Referred (database patients) := fun a ha => by simp [database, patients, Row.as_assertion] at ha
  have htyped : ∀ k ∈ written_visit, k.Typed Clinical.uuid := by
    intro k hk
    simp only [written_visit, List.mem_cons, List.not_mem_nil, or_false] at hk
    rcases hk with rfl | rfl | rfl | rfl
    · rfl
    all_goals trivial
  have hquiet : Quiet 0 beside := by
    intro l hl d reset heq
    simp only [beside, written_visit, List.flatMap_cons, List.flatMap_nil, List.cons_append, List.nil_append,
      List.mem_cons, List.not_mem_nil, or_false] at hl
    subst heq
    obtain ⟨rfl, -⟩ : d = 0 ∧ reset = false := by simpa using hl
    rfl
  exact ⟨t, ht, block_run rfl (by decide) hreferred htyped hquiet rfl ht⟩

example : (run (step clinics 2) (State.init patients) beside).map (fun t => (database t.rows).assertions) =
    some [{ visit with visible := true }] := rfl

end GuardMem.Postgres
