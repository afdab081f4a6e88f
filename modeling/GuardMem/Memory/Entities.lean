import GuardMem.Memory.Sessions
import GuardMem.Pipeline.PerCandidate

/-! Which entity a candidate is about: `entities.NamespaceEntityResolver` over the `entity` table.

    The id is derived from the tenant and the namespace, so callers that race create one row between them
    and the first of them names it. CORRECT: whatever is resolved in whatever order, and whichever writes
    fail, two answers name one entity exactly where tenant and namespace agree, its row is there, and no
    row is ever changed (`resolve_run`). -/

namespace GuardMem.Entities

open Lib.Table Postgres

/-! ### One call -/

/-- One call of the resolver. -/
structure Binding where
  subject : String
  tenant_id : TenantId
  «namespace» : Namespace
  expected_type : String

/-- What happens to the write: it is acknowledged, it fails, or it commits and the acknowledgement is
    lost. -/
inductive Fate where
  | acknowledged
  | failed
  | unacknowledged

variable (deps : Deps) (tenants : List TenantId)

/-- The entity a call binds to, if it binds. -/
def Binding.resolve (c : Binding) : Except Exc EntityId :=
  GuardMem.resolve deps c.subject c.tenant_id c.namespace c.expected_type

/-- The row a call would create. A blank subject is stored as the id. -/
def Binding.row (c : Binding) : EntityRow where
  id := derive_entity_id deps c.tenant_id c.namespace
  tenant_id := c.tenant_id
  type := c.expected_type
  canonical_name := if c.subject = "" then derive_entity_id deps c.tenant_id c.namespace else c.subject

/-- `INSERT INTO entity … ON CONFLICT (id) DO NOTHING`, inside the tenant's own transaction: the tenant is
    cast to a uuid, and a new row's has to be there. -/
def INSERT_ENTITY (row : EntityRow) (table : List EntityRow) : Except Exc (List EntityRow) := do
  require (deps.uuid.valid row.tenant_id = true) (.DataError row.tenant_id)
  require (row.id ∈ table.map EntityRow.id ∨ row.tenant_id ∈ tenants) (.ForeignKeyViolation "tenant_id")
  .ok (insertNew EntityRow.id row table)

/-- Bind a subject to an entity, creating the row if it is new. -/
def resolve (c : Binding) (fate : Fate) (table : List EntityRow) : Except Exc EntityId × List EntityRow :=
  match c.resolve deps with
  | .error exc => (.error exc, table)
  | .ok id =>
      match fate, INSERT_ENTITY deps tenants (c.row deps) table with
      | .acknowledged, .ok table => (.ok id, table)
      | .unacknowledged, .ok table => (.error .StoreUnavailable, table)
      | _, _ => (.error .StoreUnavailable, table)

/-! ### A run -/

/-- The table, and what each call was answered. -/
structure State where
  table : List EntityRow
  answers : List (Binding × Except Exc EntityId)

def step (s : State) (l : Binding × Fate) : State :=
  let out := resolve deps tenants l.1 l.2 s.table
  ⟨out.2, s.answers ++ [(l.1, out.1)]⟩

/-- The calls of any callers, in the order their writes reach the table. -/
def after (calls : List (Binding × Fate)) : State := calls.foldl (step deps tenants) ⟨[], []⟩

variable {deps tenants} {c c' : Binding} {id id' : EntityId}

/-- A call that binds, for a tenant that is a uuid. -/
structure Binds (deps : Deps) (c : Binding) : Prop where
  declared : ∃ type, subject_type_of c.namespace = some type ∧
    deps.casefold type = deps.casefold c.expected_type
  tenant : deps.uuid.valid c.tenant_id = true

theorem resolve_ok (h : c.resolve deps = .ok id) : id = derive_entity_id deps c.tenant_id c.namespace ∧
    ∃ type, subject_type_of c.namespace = some type ∧
      deps.casefold type = deps.casefold c.expected_type := by
  unfold Binding.resolve GuardMem.resolve at h
  split at h
  · cases h
  · next type htype =>
      split at h
      · cases h
      · next hfold => exact ⟨(Except.ok.inj h).symm, type, htype, not_not.mp hfold⟩

/-- A call leaves the table alone, or inserts the row of a call that binds; it answers in the latter case
    only. -/
theorem resolve_cases (c : Binding) (fate : Fate) (table : List EntityRow) :
    (∃ exc, resolve deps tenants c fate table = (.error exc, table)) ∨
      Binds deps c ∧ ∃ answer, resolve deps tenants c fate table =
        (answer, insertNew EntityRow.id (c.row deps) table) ∧
          ∀ id, answer = .ok id → id = derive_entity_id deps c.tenant_id c.namespace := by
  unfold resolve
  cases hbind : c.resolve deps with
  | error exc => exact .inl ⟨exc, rfl⟩
  | ok id =>
      obtain ⟨hid, hdeclared⟩ := resolve_ok hbind
      cases hinsert : INSERT_ENTITY deps tenants (c.row deps) table with
      | error exc => cases fate <;> exact .inl ⟨_, rfl⟩
      | ok table' =>
          simp only [INSERT_ENTITY, bind_ok, require_ok] at hinsert
          obtain ⟨_, htenant, _, -, hinsert⟩ := hinsert
          obtain rfl := Except.ok.inj hinsert
          cases fate with
          | failed => exact .inl ⟨_, rfl⟩
          | acknowledged => exact .inr ⟨⟨hdeclared, htenant⟩, _, rfl, fun _ h => Except.ok.inj h ▸ hid⟩
          | unacknowledged => exact .inr ⟨⟨hdeclared, htenant⟩, _, rfl, nofun⟩

/-- A tenant has no slash in it, so the derived name is taken apart one way only. -/
theorem derive_entity_id_inj (h : Binds deps c) (h' : Binds deps c') :
    derive_entity_id deps c.tenant_id c.namespace = derive_entity_id deps c'.tenant_id c'.namespace ↔
      c.tenant_id = c'.tenant_id ∧ c.namespace = c'.namespace := by
  refine ⟨fun heq => ?_, fun ⟨htenant, hns⟩ => by rw [htenant, hns]⟩
  have hname := congrArg String.toList (deps.uuid.injective heq)
  simp only [String.toList_append, List.append_assoc] at hname
  have hrest := List.append_cancel_left hname
  have htenant := eq_of_append_sep (deps.uuid.slashless _ h.tenant) (deps.uuid.slashless _ h'.tenant) hrest
  rw [htenant] at hrest
  exact ⟨String.toList_injective htenant,
    String.toList_injective (List.append_cancel_left (List.append_cancel_left hrest))⟩

/-! ### What holds of every run -/

/-- What the answers and the rows have to do with one another. -/
structure Bound (deps : Deps) (s : State) : Prop where
  one : (s.table.map EntityRow.id).Nodup
  rows : ∀ row ∈ s.table, ∃ c, Binds deps c ∧ row = c.row deps
  answers : ∀ c id, (c, .ok id) ∈ s.answers → Binds deps c ∧
    id = derive_entity_id deps c.tenant_id c.namespace ∧ id ∈ s.table.map EntityRow.id

theorem Bound.step {s : State} (h : Bound deps s) (l : Binding × Fate) :
    Bound deps (step deps tenants s l) ∧ s.table <+: (Entities.step deps tenants s l).table := by
  obtain ⟨c, fate⟩ := l
  rw [Entities.step]
  rcases @resolve_cases deps tenants c fate s.table with ⟨exc, heq⟩ | ⟨hbinds, answer, heq, hanswer⟩
  · rw [heq]
    refine ⟨⟨h.one, h.rows, fun c' id' hmem => h.answers c' id' ?_⟩, List.prefix_rfl⟩
    rcases List.mem_append.mp hmem with hmem | hmem
    · exact hmem
    · cases List.mem_singleton.mp hmem
  · rw [heq]
    have hgrows : s.table <+: insertNew EntityRow.id (c.row deps) s.table := by
      by_cases hold : (c.row deps).id ∈ s.table.map EntityRow.id
      · rw [insertNew_old hold]
      · rw [insertNew_new hold]
        exact List.prefix_append _ _
    refine ⟨⟨nodup_insertNew h.one, fun row hrow => ?_, fun c' id' hmem => ?_⟩, hgrows⟩
    · rcases mem_insertNew.mp hrow with hrow | ⟨rfl, -⟩
      · exact h.rows row hrow
      · exact ⟨c, hbinds, rfl⟩
    · rcases List.mem_append.mp hmem with hmem | hmem
      · obtain ⟨hbinds', hid, hthere⟩ := h.answers c' id' hmem
        exact ⟨hbinds', hid, (hgrows.map EntityRow.id).subset hthere⟩
      · obtain ⟨rfl, hok⟩ := Prod.mk.inj (List.mem_singleton.mp hmem)
        have hid := hanswer id' hok.symm
        exact ⟨hbinds, hid, hid ▸ key_mem_insertNew⟩

theorem Bound.foldl : ∀ (calls : List (Binding × Fate)) {s : State}, Bound deps s →
    Bound deps (calls.foldl (Entities.step deps tenants) s) ∧
      s.table <+: (calls.foldl (Entities.step deps tenants) s).table
  | [], _, h => ⟨h, List.prefix_rfl⟩
  | l :: calls, s, h => by
      obtain ⟨hstep, hgrows⟩ := h.step l
      obtain ⟨hrest, hgrows'⟩ := Bound.foldl calls hstep
      exact ⟨hrest, hgrows.trans hgrows'⟩

/-- An answered call's entity: its one row is the tenant's and of the type its namespace names, up to
    case. -/
def Entity (deps : Deps) (s : State) (c : Binding) (id : EntityId) : Prop :=
  ∃ row ∈ s.table, row.id = id ∧ (∀ other ∈ s.table, other.id = id → other = row) ∧
    row.tenant_id = c.tenant_id ∧ ∃ type, subject_type_of c.namespace = some type ∧
      deps.casefold type = deps.casefold row.type

theorem Bound.entity {s : State} (h : Bound deps s) (hanswer : (c, .ok id) ∈ s.answers) :
    Entity deps s c id := by
  obtain ⟨hbinds, hid, hthere⟩ := h.answers c id hanswer
  obtain ⟨row, hrow, hrowid⟩ := List.mem_map.mp hthere
  obtain ⟨c', hbinds', rfl⟩ := h.rows row hrow
  obtain ⟨htenant, hns⟩ := (derive_entity_id_inj hbinds' hbinds).mp (hrowid.trans hid)
  refine ⟨_, hrow, hrowid, fun other hother heq => ?_, htenant, ?_⟩
  · exact eq_of_key EntityRow.id h.one hother hrow (heq.trans hrowid.symm)
  · obtain ⟨type, htype, hfold⟩ := hbinds'.declared
    exact ⟨type, hns ▸ htype, hfold⟩

/-- CORRECT: after any calls, each answer names an entity of its tenant and its namespace alone; and a row,
    once there, stays as the first call made it. -/
theorem resolve_run (deps : Deps) (tenants : List TenantId) (earlier later : List (Binding × Fate)) :
    (∀ c id, (c, .ok id) ∈ (after deps tenants (earlier ++ later)).answers →
      Entity deps (after deps tenants (earlier ++ later)) c id ∧
        ∀ c' id', (c', .ok id') ∈ (after deps tenants (earlier ++ later)).answers →
          (id = id' ↔ c.tenant_id = c'.tenant_id ∧ c.namespace = c'.namespace)) ∧
      (after deps tenants earlier).table <+: (after deps tenants (earlier ++ later)).table := by
  have hstart : Bound deps ⟨[], []⟩ := ⟨List.nodup_nil, by simp, by simp⟩
  have hbound : Bound deps (after deps tenants (earlier ++ later)) := (Bound.foldl _ hstart).1
  refine ⟨fun c id hanswer => ⟨hbound.entity hanswer, fun c' id' hanswer' => ?_⟩, ?_⟩
  · obtain ⟨hbinds, rfl, -⟩ := hbound.answers c id hanswer
    obtain ⟨hbinds', rfl, -⟩ := hbound.answers c' id' hanswer'
    exact derive_entity_id_inj hbinds hbinds'
  · rw [after, after, List.foldl_append]
    exact (Bound.foldl later (Bound.foldl earlier hstart).1).2

end GuardMem.Entities
