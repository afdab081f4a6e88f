import GuardMem.Lib.Staged
import GuardMem.Lib.Transition
import GuardMem.Memory.Tables
import Mathlib.Logic.Function.Basic

/-! The tables behind row-level security, and the pooled connections that reach them:
    `0001_initial` with `pool.transaction` and `pool.tenant_transaction`.

    A statement is a SELECT, INSERT, UPDATE or DELETE of the application role: it sees what the
    policies let through under the connection's `app.tenant_id`, and stages what it changes until COMMIT.
    A run interleaves the statements of any number of connections. CORRECT: an idle connection carries no
    tenant, and whatever a block reads or writes is its own tenant's, or in the one table without a
    policy (`confined_run`). -/

namespace GuardMem.Postgres

open Lib.Staged Lib.Transition

/-! ### The tables -/

/-- A row of `entity`. -/
structure EntityRow where
  id : EntityId
  tenant_id : TenantId
  type : String
  canonical_name : String
  deriving DecidableEq

inductive Table where
  | entity
  | assertion
  | provenance
  | audit_event
  | outbox
  deriving DecidableEq

inductive Row where
  | entity (r : EntityRow)
  | assertion (r : AssertionRow)
  | provenance (r : ProvenanceRow)
  | audit_event (seq : ℕ) (r : AuditRow)
  | outbox (r : OutboxRow)
  deriving DecidableEq

/-- A primary key. -/
inductive Key where
  | entity (id : EntityId)
  | assertion (id : AssertionId)
  | provenance (id : String)
  | audit_event (seq : ℕ)
  | outbox (id : String)
  deriving DecidableEq

def Key.table : Key → Table
  | .entity _ => .entity
  | .assertion _ => .assertion
  | .provenance _ => .provenance
  | .audit_event _ => .audit_event
  | .outbox _ => .outbox

def Row.key : Row → Key
  | .entity r => .entity r.id
  | .assertion r => .assertion r.id
  | .provenance r => .provenance r.id
  | .audit_event seq _ => .audit_event seq
  | .outbox r => .outbox r.id

def Row.table (r : Row) : Table := r.key.table

/-- The `tenant_id` column of the tables that have one. -/
def Row.tenant_id : Row → Option TenantId
  | .entity r => some r.tenant_id
  | .assertion r => some r.tenant_id
  | .audit_event _ r => some r.tenant_id
  | .provenance _ | .outbox _ => none

/-- The CHECKs of a row's table. -/
def Row.violated : Row → Option String
  | .assertion r => r.violated
  | .provenance r => r.violated
  | .entity _ | .audit_event _ _ | .outbox _ => none

/-- The rows its foreign keys name. -/
def Row.references : Row → List Key
  | .entity _ | .audit_event _ _ => []
  | .assertion r => .entity r.subject_id :: (r.superseded_by.map Key.assertion).toList
  | .provenance r => [.assertion r.assertion_id]
  | .outbox r => [.assertion r.assertion_id]

inductive Privilege where
  | SELECT
  | INSERT
  | UPDATE
  | DELETE
  deriving DecidableEq

/-- `_grants`: what `guardmem_app` may do to each table. -/
def granted : Table → List Privilege
  | .assertion => [.SELECT, .INSERT, .UPDATE]
  | .provenance => [.SELECT, .INSERT]
  | .audit_event => [.SELECT, .INSERT]
  | .outbox => [.SELECT, .INSERT, .UPDATE, .DELETE]
  | .entity => [.SELECT, .INSERT, .UPDATE]

/-- Row-level security is on: the tenant-scoped tables, and `provenance`. -/
def Table.secured : Table → Bool
  | .outbox => false
  | _ => true

/-! ### The policies -/

/-- A row of `assertion` with this id that the policy of `assertion` shows to the tenant. -/
def shows_assertion (tenant : Option TenantId) (rows : List Row) (aid : AssertionId) : Bool :=
  rows.any fun
    | .assertion a => a.id == aid && some a.tenant_id == tenant
    | _ => false

/-- `tenant_isolation`, which is also what a new row has to meet. `outbox` has no policy. -/
def policy (tenant : Option TenantId) (rows : List Row) : Row → Bool
  | .provenance p => shows_assertion tenant rows p.assertion_id
  | .outbox _ => true
  | r => r.tenant_id.isSome && r.tenant_id == tenant

/-- What an error of the server is. -/
inductive ServerError where
  | invalid_text_representation (value : String)
  | insufficient_privilege (table : Table)
  | row_security (table : Table)
  | check_violation (constraint : String)
  | unique_violation (key : Key)
  | foreign_key_violation (key : Key)
  | in_failed_sql_transaction
  deriving DecidableEq

/-- What the schema runs on: `text::uuid`, and the rows of `tenant`, which the role cannot write. -/
structure Server where
  uuid : String → Option TenantId
  tenants : List TenantId

variable (server : Server)

/-- `NULLIF(current_setting('app.tenant_id', true), '')::uuid`. -/
def current_tenant : Option String → Except ServerError (Option TenantId)
  | none => .ok none
  | some setting =>
      if setting = "" then .ok none
      else match server.uuid setting with
        | some tenant => .ok (some tenant)
        | none => .error (.invalid_text_representation setting)

/-! ### Statements -/

/-- The SET of an UPDATE that leaves the primary key alone. The grants would let the role set one; no
    statement of the program does. -/
structure Assignment where
  set : Row → Row
  key_set : ∀ r, (set r).key = r.key

/-- A statement of the application role, any but an UPDATE of a primary key. A WHERE sees the rows the policies show, so it may be any
    subquery over them. -/
inductive Statement where
  | select (table : Table) (where_ : List Row → Row → Bool)
  | insert (row : Row) (do_nothing : Bool)
  | update (table : Table) (where_ : List Row → Row → Bool) (assignment : Assignment)
  | delete (table : Table) (where_ : List Row → Row → Bool)

/-- The table a statement names. -/
def Statement.table : Statement → Table
  | .select table _ | .update table _ _ | .delete table _ => table
  | .insert row _ => row.table

def Statement.privilege : Statement → Privilege
  | .select _ _ => .SELECT
  | .insert _ _ => .INSERT
  | .update _ _ _ => .UPDATE
  | .delete _ _ => .DELETE

/-- What a statement answers: the rows it read, and how many it changed. -/
structure Reply where
  rows : List Row
  count : ℕ

abbrev Writes := List (Write Key Row)

/-- Go on if `p` holds, else raise. -/
def require (p : Prop) [Decidable p] (e : ServerError) : Except ServerError Unit :=
  if p then .ok () else .error e

/-- The rows of the statement's table that it may see. -/
def visible (setting : Option String) (view : List Row) (table : Table) : Except ServerError (List Row) :=
  if table.secured then do
    let tenant ← current_tenant server setting
    .ok (view.filter fun r => r.table.secured && policy tenant view r)
  else .ok (view.filter fun r => !r.table.secured)

/-- A new row meets the policy of its table. -/
def secure (setting : Option String) (view : List Row) (row : Row) : Except ServerError Unit :=
  if row.table.secured then do
    let tenant ← current_tenant server setting
    require (policy tenant view row = true) (.row_security row.table)
  else .ok ()

/-- A new row meets the CHECKs of its table. -/
def constrain (row : Row) : Except ServerError Unit :=
  match row.violated with
  | some constraint => .error (.check_violation constraint)
  | none => .ok ()

/-- A row that goes in names rows that are there. A foreign key that an UPDATE leaves alone is not
    looked up again; `held` is the row it replaces. -/
def refer (view : List Row) (held : Option Row) (row : Row) : Except ServerError Unit := do
  require (∀ tenant ∈ row.tenant_id, (∃ old ∈ held, old.tenant_id = some tenant) ∨ tenant ∈ server.tenants)
    (.foreign_key_violation row.key)
  require (∀ k ∈ row.references, (∃ old ∈ held, k ∈ old.references) ∨ k ∈ view.map Row.key)
    (.foreign_key_violation row.key)

/-- The row an UPDATE makes of `r` may stand in its place. -/
def replace (setting : Option String) (view : List Row) (assignment : Assignment) (r : Row) :
    Except ServerError Unit := do
  secure server setting view (assignment.set r)
  constrain (assignment.set r)
  refer server view (some r) (assignment.set r)

/-- One row after another; the first that raises ends the statement. -/
def each (f : Row → Except ServerError Unit) : List Row → Except ServerError Unit
  | [] => .ok ()
  | r :: rs => do
      f r
      each f rs

/-- The rows an UPDATE or a DELETE is about. -/
def hits (table : Table) (where_ : List Row → Row → Bool) (seen : List Row) : List Row :=
  seen.filter fun r => r.table = table && where_ seen r

/-- Evaluate a statement over the rows its transaction sees: the reply, and the writes to stage. -/
def evaluate (setting : Option String) (view : List Row) :
    Statement → Except ServerError (Reply × Writes)
  | .select table where_ => do
      let seen ← visible server setting view table
      .ok (⟨hits table where_ seen, 0⟩, [])
  | .insert row do_nothing => do
      secure server setting view row
      constrain row
      if row.key ∈ view.map Row.key then
        require (do_nothing = true) (.unique_violation row.key)
        .ok (⟨[], 0⟩, [])
      else
        refer server view none row
        .ok (⟨[], 1⟩, [.put row])
  | .update table where_ assignment => do
      let seen ← visible server setting view table
      let found := hits table where_ seen
      each (replace server setting view assignment) found
      .ok (⟨[], found.length⟩, found.map fun r => .put (assignment.set r))
  | .delete table where_ => do
      let seen ← visible server setting view table
      let found := hits table where_ seen
      .ok (⟨[], found.length⟩, found.map fun r => .drop r.key)

/-- The privilege is checked before anything is read. -/
def execute (setting : Option String) (view : List Row) (s : Statement) :
    Except ServerError (Reply × Writes) := do
  require (s.privilege ∈ granted s.table) (.insufficient_privilege s.table)
  evaluate server setting view s

/-- The keys a statement locks before it writes. -/
def locks (setting : Option String) (view : List Row) : Statement → List Key
  | .select _ _ => []
  | .insert row _ => [row.key]
  | .update table where_ _ | .delete table where_ =>
      match visible server setting view table with
      | .ok seen => (hits table where_ seen).map Row.key
      | .error _ => []

/-! ### Connections -/

/-- An open block: `tenant_transaction` of a tenant, or `transaction`. `restore` is the setting it
    began with. -/
structure Session where
  tenant : Option TenantId
  tenant_set : Bool
  restore : Option String
  failed : Bool
  writes : Writes

/-- A connection of the pool: its `app.tenant_id`, and the block that has it. -/
structure Conn where
  setting : Option String
  session : Option Session

/-- A connection as the server hands it out. -/
def Conn.fresh : Conn := ⟨none, none⟩

/-- A statement that was answered, for the statements only. -/
structure Entry where
  tenant : Option TenantId
  table : Table
  view : List Row
  reply : Reply
  writes : Writes

structure State where
  rows : List Row
  conns : ℕ → Conn
  log : List Entry

def State.init (rows : List Row) : State := ⟨rows, fun _ => .fresh, []⟩

/-- One step of the connection `c`. A block acquires it, sets its tenant and runs its statements; it ends
    in COMMIT or ROLLBACK and releases the connection, which the pool may `RESET ALL`. A connection can be
    lost at any time. -/
inductive Label where
  | acquire (c : ℕ) (tenant : Option TenantId)
  | set_config (c : ℕ)
  | execute (c : ℕ) (s : Statement)
  | commit (c : ℕ) (reset : Bool)
  | rollback (c : ℕ) (reset : Bool)
  | lose (c : ℕ)

def State.set (s : State) (c : ℕ) (conn : Conn) : State :=
  { s with conns := Function.update s.conns c conn }

@[simp] theorem State.set_conns_self (s : State) (c : ℕ) (conn : Conn) : (s.set c conn).conns c = conn :=
  Function.update_self ..

theorem State.set_conns_of_ne (s : State) {c d : ℕ} (conn : Conn) (h : d ≠ c) :
    (s.set c conn).conns d = s.conns d := Function.update_of_ne h ..

/-- What holds of the connection moved and of the others is all that holds. -/
theorem State.conns_set {P : Conn → Prop} {s : State} {c : ℕ} {conn : Conn} (hself : P conn)
    (hothers : ∀ d, P (s.conns d)) (d : ℕ) : P ((s.set c conn).conns d) := by
  by_cases hd : d = c
  · rw [hd, State.set_conns_self]
    exact hself
  · rw [State.set_conns_of_ne s conn hd]
    exact hothers d

/-- An open block is the moved connection's or another's. -/
theorem State.session_set {s : State} {c d : ℕ} {conn : Conn} {session : Session}
    (h : ((s.set c conn).conns d).session = some session) :
    (d = c ∧ conn.session = some session) ∨ (d ≠ c ∧ (s.conns d).session = some session) := by
  by_cases hd : d = c
  · rw [hd, State.set_conns_self] at h
    exact Or.inl ⟨hd, h⟩
  · rw [State.set_conns_of_ne s conn hd] at h
    exact Or.inr ⟨hd, h⟩

/-- What a transaction sees: the committed rows, and its own writes over them. -/
def Session.view (session : Session) (rows : List Row) : List Row := staged Row.key rows session.writes

/-- The body of the block has begun. -/
def Session.ready (session : Session) : Bool := session.tenant.isNone || session.tenant_set

/-- No other connection's transaction has written the key. -/
def unlocked (s : State) (max_size c : ℕ) (k : Key) : Bool :=
  (List.range max_size).all fun d => d = c ||
    (s.conns d).session.all fun session => session.writes.all fun w => w.target Row.key != k

/-- `assertion_requires_provenance`, at COMMIT: a row that went in and has no citation the tenant can
    see. -/
def unsourced (setting : Option String) (rows view : List Row) : Row → Bool
  | .assertion a => Key.assertion a.id ∉ rows.map Row.key &&
      match current_tenant server setting with
      | .ok tenant => !(view.any fun
          | .provenance p => p.assertion_id == a.id && policy tenant view (.provenance p)
          | _ => false)
      | .error _ => true
  | _ => false

/-- The setting after the block: a value set locally is taken back, which leaves a setting that was
    never there empty. `RESET ALL` does the same to one that is left. -/
def Session.released (session : Session) (setting : Option String) (reset : Bool) : Option String :=
  let restored := if session.tenant_set then some (session.restore.getD "") else setting
  if reset then restored.map fun _ => "" else restored

variable (max_size : ℕ)

def step (s : State) : Label → Option State
  | .acquire c tenant =>
      match (s.conns c).session with
      | none =>
          if c < max_size then
            some (s.set c { s.conns c with session := some ⟨tenant, false, (s.conns c).setting, false, []⟩ })
          else none
      | some _ => none
  | .set_config c =>
      match (s.conns c).session with
      | some session =>
          match session.tenant, session.tenant_set with
          | some tenant, false => some (s.set c ⟨some tenant, some { session with tenant_set := true }⟩)
          | _, _ => none
      | none => none
  | .execute c statement =>
      match (s.conns c).session with
      | some session =>
          let view := session.view s.rows
          if session.ready && !session.failed &&
              (locks server (s.conns c).setting view statement).all (unlocked s max_size c) then
            match execute server (s.conns c).setting view statement with
            | .ok (reply, writes) => some { s.set c { s.conns c with
                  session := some { session with writes := session.writes ++ writes } } with
                log := s.log ++ [⟨session.tenant, statement.table, view, reply, writes⟩] }
            | .error _ => some (s.set c { s.conns c with session := some { session with failed := true } })
          else none
      | none => none
  | .commit c reset =>
      match (s.conns c).session with
      | some session =>
          if session.ready then
            let view := session.view s.rows
            let conn := ⟨session.released (s.conns c).setting reset, none⟩
            if session.failed || view.any (unsourced server (s.conns c).setting s.rows view) then
              some (s.set c conn)
            else some { s.set c conn with rows := view }
          else none
      | none => none
  | .rollback c reset =>
      match (s.conns c).session with
      | some session => some (s.set c ⟨session.released (s.conns c).setting reset, none⟩)
      | none => none
  | .lose c => some (s.set c .fresh)

/-! ### What a step does -/

variable {server} {max_size} {s s' : State} {l : Label}

/-- Everything a step can do. -/
inductive Stepped (server : Server) (max_size : ℕ) (s : State) : Label → State → Prop where
  | acquire {c tenant} (idle : (s.conns c).session = none) (room : c < max_size) :
      Stepped server max_size s (.acquire c tenant)
        (s.set c { s.conns c with session := some ⟨tenant, false, (s.conns c).setting, false, []⟩ })
  | set_config {c session tenant} (held : (s.conns c).session = some session)
      (wanted : session.tenant = some tenant) (once : session.tenant_set = false) :
      Stepped server max_size s (.set_config c)
        (s.set c ⟨some tenant, some { session with tenant_set := true }⟩)
  | answered {c statement session reply writes} (held : (s.conns c).session = some session)
      (ready : session.ready = true) (sound : session.failed = false)
      (free : ∀ k ∈ locks server (s.conns c).setting (session.view s.rows) statement,
        unlocked s max_size c k = true)
      (done : execute server (s.conns c).setting (session.view s.rows) statement = .ok (reply, writes)) :
      Stepped server max_size s (.execute c statement)
        { s.set c { s.conns c with session := some { session with writes := session.writes ++ writes } } with
          log := s.log ++ [⟨session.tenant, statement.table, session.view s.rows, reply, writes⟩] }
  | refused {c statement session e} (held : (s.conns c).session = some session)
      (ready : session.ready = true) (sound : session.failed = false)
      (bad : execute server (s.conns c).setting (session.view s.rows) statement = .error e) :
      Stepped server max_size s (.execute c statement)
        (s.set c { s.conns c with session := some { session with failed := true } })
  | committed {c reset session} (held : (s.conns c).session = some session) (ready : session.ready = true)
      (sound : session.failed = false)
      (sourced : ∀ r ∈ session.view s.rows,
        unsourced server (s.conns c).setting s.rows (session.view s.rows) r = false) :
      Stepped server max_size s (.commit c reset)
        { s.set c ⟨session.released (s.conns c).setting reset, none⟩ with rows := session.view s.rows }
  | aborted {c reset session} (held : (s.conns c).session = some session) (ready : session.ready = true)
      (bad : session.failed = true ∨ ∃ r ∈ session.view s.rows,
        unsourced server (s.conns c).setting s.rows (session.view s.rows) r = true) :
      Stepped server max_size s (.commit c reset)
        (s.set c ⟨session.released (s.conns c).setting reset, none⟩)
  | undone {c reset session} (held : (s.conns c).session = some session) :
      Stepped server max_size s (.rollback c reset)
        (s.set c ⟨session.released (s.conns c).setting reset, none⟩)
  | lost {c} : Stepped server max_size s (.lose c) (s.set c .fresh)

theorem stepped (h : step server max_size s l = some s') : Stepped server max_size s l s' := by
  cases l with
  | acquire c tenant =>
      simp only [step] at h
      split at h
      · next hidle =>
          split at h
          · next hroom => exact Option.some.inj h ▸ .acquire hidle hroom
          · cases h
      · cases h
  | set_config c =>
      simp only [step] at h
      split at h
      · next session hheld =>
          split at h
          · next tenant hwanted honce => exact Option.some.inj h ▸ .set_config hheld hwanted honce
          · cases h
      · cases h
  | execute c statement =>
      simp only [step] at h
      split at h
      · next session hheld =>
          split at h
          · next hgo =>
              rw [Bool.and_eq_true, Bool.and_eq_true, List.all_eq_true, Bool.not_eq_true'] at hgo
              obtain ⟨⟨hready, hsound⟩, hfree⟩ := hgo
              split at h
              · next hdone => exact Option.some.inj h ▸ .answered hheld hready hsound hfree hdone
              · next hbad => exact Option.some.inj h ▸ .refused hheld hready hsound hbad
          · cases h
      · cases h
  | commit c reset =>
      simp only [step] at h
      split at h
      · next session hheld =>
          split at h
          · next hready =>
              split at h
              · next hbad =>
                  rw [Bool.or_eq_true, List.any_eq_true] at hbad
                  exact Option.some.inj h ▸ .aborted hheld hready hbad
              · next hgo =>
                  rw [Bool.or_eq_true, not_or, List.any_eq_true, not_exists, Bool.not_eq_true] at hgo
                  refine Option.some.inj h ▸ .committed hheld hready hgo.1 fun r hr => ?_
                  exact Bool.eq_false_iff.mpr fun hbad => hgo.2 r ⟨hr, hbad⟩
          · cases h
      · cases h
  | rollback c reset =>
      simp only [step] at h
      split at h
      · next session hheld => exact Option.some.inj h ▸ .undone hheld
      · cases h
  | lose c =>
      simp only [step] at h
      exact Option.some.inj h ▸ .lost

/-! ### Whose rows a statement touches -/

theorem require_ok {p : Prop} [Decidable p] {e : ServerError} {u : Unit} : require p e = .ok u ↔ p := by
  unfold require
  split <;> simp [*]

theorem bind_ok {α β : Type} {x : Except ServerError α} {f : α → Except ServerError β} {b : β} :
    (x >>= f) = .ok b ↔ ∃ a, x = .ok a ∧ f a = .ok b := by
  cases x with
  | error e => simp [bind, Except.bind]
  | ok a => simp [bind, Except.bind]

theorem each_ok {f : Row → Except ServerError Unit} : ∀ {rs : List Row} {u : Unit},
    each f rs = .ok u ↔ ∀ r ∈ rs, f r = .ok ()
  | [], u => iff_of_true rfl fun _ hr => nomatch hr
  | r :: rs, u => by
      rw [each, bind_ok, List.forall_mem_cons]
      constructor
      · rintro ⟨⟨⟩, hr, hrs⟩
        exact ⟨hr, each_ok.mp hrs⟩
      · rintro ⟨hr, hrs⟩
        exact ⟨(), hr, each_ok.mpr hrs⟩

variable {setting : Option String} {view : List Row} {r : Row} {statement : Statement} {reply : Reply}
  {writes : Writes}

/-- The row is one the policies show under the setting, or of the table that has none. -/
def Permitted (server : Server) (setting : Option String) (view : List Row) (r : Row) : Prop :=
  r.table = .outbox ∨ ∃ tenant, current_tenant server setting = .ok (some tenant) ∧
    policy (some tenant) view r = true

theorem secured_eq_false {t : Table} : t.secured = false ↔ t = .outbox := by
  cases t <;> simp [Table.secured]

/-- Without a tenant the policies show nothing. -/
theorem policy_none (h : policy none view r = true) : r.table = .outbox := by
  cases r with
  | outbox o => rfl
  | provenance p =>
      obtain ⟨x, -, hx⟩ := List.any_eq_true.mp h
      cases x <;> simp at hx
  | _ => simp [policy, Row.tenant_id] at h

theorem permitted_of_policy {tenant : Option TenantId} (ht : current_tenant server setting = .ok tenant)
    (h : policy tenant view r = true) : Permitted server setting view r := by
  cases tenant with
  | none => exact Or.inl (policy_none h)
  | some tenant => exact Or.inr ⟨tenant, ht, h⟩

theorem permitted_of_visible {t : Table} {seen : List Row} (h : visible server setting view t = .ok seen)
    (hr : r ∈ seen) : Permitted server setting view r := by
  unfold visible at h
  split at h
  · obtain ⟨tenant, htenant, hseen⟩ := bind_ok.mp h
    rw [← Except.ok.inj hseen] at hr
    have hpolicy := (List.mem_filter.mp hr).2
    rw [Bool.and_eq_true] at hpolicy
    exact permitted_of_policy htenant hpolicy.2
  · rw [← Except.ok.inj h] at hr
    have hpublic := (List.mem_filter.mp hr).2
    rw [Bool.not_eq_true'] at hpublic
    exact Or.inl (secured_eq_false.mp hpublic)

theorem permitted_of_secure {u : Unit} (h : secure server setting view r = .ok u) :
    Permitted server setting view r := by
  unfold secure at h
  split at h
  · obtain ⟨tenant, htenant, hrow⟩ := bind_ok.mp h
    exact permitted_of_policy htenant (require_ok.mp hrow)
  · next hpublic => exact Or.inl (secured_eq_false.mp (Bool.eq_false_iff.mpr hpublic))

theorem mem_hits {t : Table} {where_ : List Row → Row → Bool} {seen : List Row} :
    r ∈ hits t where_ seen ↔ r ∈ seen ∧ r.table = t ∧ where_ seen r = true := by
  simp [hits]

/-- One write of a statement that is answered, and what let it through. -/
inductive Written (server : Server) (setting : Option String) (view : List Row) :
    Statement → Write Key Row → Prop where
  | inserted {row do_nothing} (shown : secure server setting view row = .ok ())
      (absent : row.key ∉ view.map Row.key) (cited : refer server view none row = .ok ()) :
      Written server setting view (.insert row do_nothing) (.put row)
  | updated {t where_ assignment seen r} (grant : Privilege.UPDATE ∈ granted t)
      (sees : visible server setting view t = .ok seen) (hit : r ∈ hits t where_ seen)
      (replaced : replace server setting view assignment r = .ok ()) :
      Written server setting view (.update t where_ assignment) (.put (assignment.set r))
  | deleted {t where_ seen r} (grant : Privilege.DELETE ∈ granted t)
      (sees : visible server setting view t = .ok seen) (hit : r ∈ hits t where_ seen) :
      Written server setting view (.delete t where_) (.drop r.key)

theorem written (h : execute server setting view statement = .ok (reply, writes)) :
    ∀ w ∈ writes, Written server setting view statement w := by
  unfold execute at h
  obtain ⟨_, hgrant, h⟩ := bind_ok.mp h
  have hgrant := require_ok.mp hgrant
  intro w hw
  cases statement with
  | select t where_ =>
      obtain ⟨seen, -, h⟩ := bind_ok.mp h
      obtain ⟨-, rfl⟩ := Prod.mk.inj (Except.ok.inj h)
      cases hw
  | insert row do_nothing =>
      obtain ⟨_, hshown, h⟩ := bind_ok.mp h
      obtain ⟨_, -, h⟩ := bind_ok.mp h
      split at h
      · obtain ⟨_, -, h⟩ := bind_ok.mp h
        obtain ⟨-, rfl⟩ := Prod.mk.inj (Except.ok.inj h)
        cases hw
      · next habsent =>
          obtain ⟨_, hcited, h⟩ := bind_ok.mp h
          obtain ⟨-, rfl⟩ := Prod.mk.inj (Except.ok.inj h)
          obtain rfl := List.mem_singleton.mp hw
          exact .inserted hshown habsent hcited
  | update t where_ assignment =>
      obtain ⟨seen, hseen, h⟩ := bind_ok.mp h
      obtain ⟨_, hall, h⟩ := bind_ok.mp h
      obtain ⟨-, rfl⟩ := Prod.mk.inj (Except.ok.inj h)
      obtain ⟨r, hr, rfl⟩ := List.mem_map.mp hw
      exact .updated hgrant hseen hr (each_ok.mp hall r hr)
  | delete t where_ =>
      obtain ⟨seen, hseen, h⟩ := bind_ok.mp h
      obtain ⟨-, rfl⟩ := Prod.mk.inj (Except.ok.inj h)
      obtain ⟨r, hr, rfl⟩ := List.mem_map.mp hw
      exact .deleted hgrant hseen hr

/-- The rows a statement answers with are among those it may see. -/
theorem read_of_execute (h : execute server setting view statement = .ok (reply, writes))
    (hr : r ∈ reply.rows) : ∃ seen, visible server setting view statement.table = .ok seen ∧ r ∈ seen := by
  unfold execute at h
  obtain ⟨_, -, h⟩ := bind_ok.mp h
  cases statement with
  | select t where_ =>
      obtain ⟨seen, hseen, h⟩ := bind_ok.mp h
      obtain ⟨rfl, -⟩ := Prod.mk.inj (Except.ok.inj h)
      exact ⟨seen, hseen, (mem_hits.mp hr).1⟩
  | insert row do_nothing =>
      obtain ⟨_, -, h⟩ := bind_ok.mp h
      obtain ⟨_, -, h⟩ := bind_ok.mp h
      split at h <;>
        · obtain ⟨_, -, h⟩ := bind_ok.mp h
          obtain ⟨rfl, -⟩ := Prod.mk.inj (Except.ok.inj h)
          cases hr
  | update t where_ assignment =>
      obtain ⟨seen, -, h⟩ := bind_ok.mp h
      obtain ⟨_, -, h⟩ := bind_ok.mp h
      obtain ⟨rfl, -⟩ := Prod.mk.inj (Except.ok.inj h)
      cases hr
  | delete t where_ =>
      obtain ⟨seen, -, h⟩ := bind_ok.mp h
      obtain ⟨rfl, -⟩ := Prod.mk.inj (Except.ok.inj h)
      cases hr

/-- What a statement that is answered reads, and what it puts. -/
theorem execute_permitted (h : execute server setting view statement = .ok (reply, writes)) :
    ∀ r, r ∈ reply.rows ∨ .put r ∈ writes → Permitted server setting view r := by
  rintro r (hr | hr)
  · obtain ⟨seen, hseen, hr⟩ := read_of_execute h hr
    exact permitted_of_visible hseen hr
  · rcases written h _ hr with ⟨hshown, -, -⟩ | ⟨-, -, -, hreplaced⟩
    · exact permitted_of_secure hshown
    · obtain ⟨_, hsecure, -⟩ := bind_ok.mp hreplaced
      exact permitted_of_secure hsecure

/-! ### Whose setting a connection carries -/

/-- No tenant: never set, or set and taken back. -/
def Blank (setting : Option String) : Prop := setting = none ∨ setting = some ""

theorem current_tenant_blank (h : Blank setting) : current_tenant server setting = .ok none := by
  rcases h with rfl | rfl
  · rfl
  · simp [current_tenant]

/-- A connection carries its block's tenant from `set_config` on, and none before or after. -/
structure Bound (conn : Conn) : Prop where
  idle : conn.session = none → Blank conn.setting
  restore : ∀ session, conn.session = some session → Blank session.restore
  unset : ∀ session, conn.session = some session → session.tenant_set = false → Blank conn.setting
  set : ∀ session, conn.session = some session → session.tenant_set = true →
    ∃ tenant, session.tenant = some tenant ∧ conn.setting = some tenant

theorem bound_fresh : Bound .fresh :=
  ⟨fun _ => Or.inl rfl, by simp [Conn.fresh], by simp [Conn.fresh], by simp [Conn.fresh]⟩

theorem bound_open {session : Session} (hrestore : Blank session.restore)
    (hunset : session.tenant_set = false → Blank setting)
    (hset : session.tenant_set = true → ∃ tenant, session.tenant = some tenant ∧ setting = some tenant) :
    Bound ⟨setting, some session⟩ where
  idle h := by cases h
  restore _ h := Option.some.inj h ▸ hrestore
  unset _ h := Option.some.inj h ▸ hunset
  set _ h := Option.some.inj h ▸ hset

/-- What a block gives back carries no tenant, however it ended. -/
theorem bound_released {conn : Conn} {session : Session} {reset : Bool} (h : Bound conn)
    (hheld : conn.session = some session) : Bound ⟨session.released conn.setting reset, none⟩ := by
  have hblank : ∀ o : Option String, Blank o → Blank (if reset then o.map fun _ => "" else o) := by
    rintro o (rfl | rfl) <;> cases reset <;> simp [Blank]
  refine ⟨fun _ => hblank _ ?_, by simp, by simp, by simp⟩
  cases hset : session.tenant_set with
  | false => exact h.unset session hheld hset
  | true =>
      rcases h.restore session hheld with hr | hr <;> simp [hr, Blank]

theorem bound_step (h : Stepped server max_size s l s') (hs : ∀ c, Bound (s.conns c)) :
    ∀ c, Bound (s'.conns c) := by
  have move : ∀ c conn, Bound conn → ∀ d, Bound ((s.set c conn).conns d) := fun c conn hconn =>
    State.conns_set hconn hs
  cases h with
  | acquire idle _ => exact move _ _ (bound_open ((hs _).idle idle) (fun _ => (hs _).idle idle) (by simp))
  | @set_config c session tenant held wanted _ =>
      exact move _ _ (bound_open ((hs c).restore session held) (by simp) fun _ => ⟨_, wanted, rfl⟩)
  | @answered c _ session _ _ held _ _ _ _ =>
      exact move _ _ (bound_open ((hs c).restore session held) ((hs c).unset session held)
        ((hs c).set session held))
  | @refused c _ session _ held _ _ _ =>
      exact move _ _ (bound_open ((hs c).restore session held) ((hs c).unset session held)
        ((hs c).set session held))
  | committed held _ _ _ => exact move _ _ (bound_released (hs _) held)
  | aborted held _ _ => exact move _ _ (bound_released (hs _) held)
  | undone held => exact move _ _ (bound_released (hs _) held)
  | lost => exact move _ _ bound_fresh

/-- A row the entry read or wrote is of its block's tenant. -/
def Entry.Own (server : Server) (e : Entry) (r : Row) : Prop :=
  ∃ tenant uuid, e.tenant = some tenant ∧ server.uuid tenant = some uuid ∧
    policy (some uuid) e.view r = true

/-- Every statement so far kept to its block's tenant, and every connection is as its block left it. -/
structure Confined (server : Server) (s : State) : Prop where
  bound : ∀ c, Bound (s.conns c)
  log : ∀ e ∈ s.log, ∀ r, r ∈ e.reply.rows ∨ .put r ∈ e.writes → r.table = .outbox ∨ e.Own server r

theorem confined_step (h : step server max_size s l = some s') (hs : Confined server s) :
    Confined server s' := by
  have hstep := stepped h
  refine ⟨bound_step hstep hs.bound, ?_⟩
  cases hstep with
  | answered held ready _ _ done =>
      rintro e he r hr
      rcases List.mem_append.mp he with he | he
      · exact hs.log e he r hr
      · obtain rfl := List.mem_singleton.mp he
        rcases execute_permitted done r hr with hpublic | ⟨uuid, huuid, hpolicy⟩
        · exact Or.inl hpublic
        · -- a setting that reads as a tenant is one `set_config` made
          have hset : ∃ session, (s.conns _).session = some session ∧ session.tenant_set = true :=
            ⟨_, held, by
              by_contra hunset
              have hblank := (hs.bound _).unset _ held (Bool.eq_false_iff.mpr hunset)
              rw [current_tenant_blank hblank] at huuid
              cases huuid⟩
          obtain ⟨session, hheld, hset⟩ := hset
          obtain rfl := Option.some.inj (hheld.symm.trans held)
          obtain ⟨tenant, htenant, hsetting⟩ := (hs.bound _).set _ held hset
          refine Or.inr ⟨tenant, uuid, htenant, ?_, hpolicy⟩
          rw [hsetting, current_tenant] at huuid
          split at huuid
          · cases huuid
          · split at huuid
            · next hu => rw [hu, Option.some.inj (Except.ok.inj huuid)]
            · cases huuid
  | _ => exact hs.log

/-- CORRECT: over any interleaving of any number of blocks on a pool, a connection that no block has
    carries no tenant; and every row that a statement read or wrote is of the tenant its block was opened
    for, or of the table without a policy. So `transaction` reaches that table only. -/
theorem confined_run {rows : List Row} {ls : List Label}
    (h : run (step server max_size) (State.init rows) ls = some s) :
    (∀ c, (s.conns c).session = none → current_tenant server (s.conns c).setting = .ok none) ∧
      ∀ e ∈ s.log, ∀ r, r ∈ e.reply.rows ∨ .put r ∈ e.writes →
        r.table = .outbox ∨ e.Own server r := by
  have hinit : Confined server (State.init rows) :=
    ⟨fun _ => bound_fresh, fun e he => by simp [State.init] at he⟩
  have hs : Confined server s := inv_run (fun _ _ _ h hs => confined_step h hs) h hinit
  exact ⟨fun c hc => current_tenant_blank ((hs.bound c).idle hc), hs.log⟩

/-! ### Two tenants on one connection -/

def clinics : Server := ⟨fun s => some s, ["north", "south"]⟩

def patients : List Row :=
  [.entity ⟨"p1", "north", "patient", "Ann"⟩, .entity ⟨"p2", "south", "patient", "Bo"⟩]

/-- One block after another on the one connection, the last one `transaction`. -/
def shared : List Label :=
  [.acquire 0 (some "north"), .set_config 0, .execute 0 (.select .entity fun _ _ => true), .commit 0 false,
   .acquire 0 (some "south"), .set_config 0, .execute 0 (.select .entity fun _ _ => true), .rollback 0 false,
   .acquire 0 none, .execute 0 (.select .entity fun _ _ => true)]

theorem confined_run_shared : ∃ s, run (step clinics 1) (State.init patients) shared = some s ∧
    (∀ c, (s.conns c).session = none → current_tenant clinics (s.conns c).setting = .ok none) ∧
      ∀ e ∈ s.log, ∀ r, r ∈ e.reply.rows ∨ .put r ∈ e.writes → r.table = .outbox ∨ e.Own clinics r := by
  have hrun : (run (step clinics 1) (State.init patients) shared).isSome = true := rfl
  obtain ⟨s, hs⟩ := Option.isSome_iff_exists.mp hrun
  exact ⟨s, hs, confined_run hs⟩

example : (run (step clinics 1) (State.init patients) shared).map (fun s => s.log.map fun e => e.reply.rows) =
    some [[.entity ⟨"p1", "north", "patient", "Ann"⟩], [.entity ⟨"p2", "south", "patient", "Bo"⟩], []] := rfl

end GuardMem.Postgres
