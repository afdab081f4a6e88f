import GuardMem.Supersession

/-! What a replayed apply leaves: the audit chain and the evidence.

    The row, the citation and the outbox event of an apply are each inserted once for their own derived
    id; its audit events are appended every time, and its outcome names the derived id whatever the
    row under it holds. CORRECT: chain and state correspond exactly in the runs where no apply derives
    a stored id (`chained_iff_fresh`), and every fact is backed by its own evidence exactly in the
    runs where a replay restates what it stored (`backed_iff_faithful`). -/

namespace GuardMem

open Lib.Table Lib.Transition

variable {G : Type} {env : Env G} {w w' : World G} {l : Label} {deps : Deps} {db : Db}

/-- A string field of an event's payload. -/
def AuditRow.field (key : String) (e : AuditRow) : Option String :=
  match e.payload with
  | .obj payload => (payload.get key).toOption
  | _ => none

/-- A tenant's rows. -/
def Db.rows (db : Db) (tenant : TenantId) : List AssertionRow :=
  db.assertions.filter fun r => r.tenant_id == tenant

/-- The events of one kind on a tenant's chain. -/
def Db.events (db : Db) (tenant : TenantId) (kind : AuditKind) : List AuditRow :=
  (db.audit.filter fun e => e.kind == kind).filter fun e => e.tenant_id == tenant

/-- Each tenant's WRITE events are its rows, one for one, and its SUPERSEDE events its superseded
    rows with their successors. -/
structure Chained (db : Db) : Prop where
  writes : ∀ tenant, ((db.events tenant .WRITE).map (AuditRow.field "assertion_id")).Perm
    ((db.rows tenant).map fun r => some r.id)
  supersedes : ∀ tenant,
    ((db.events tenant .SUPERSEDE).map fun e => (e.field "retired", e.field "by")).Perm
      (((db.rows tenant).filter fun r => r.superseded_by.isSome).map fun r =>
        (some r.id, r.superseded_by))

/-! ### The events of a landing apply -/

/-- The link an apply appends: of its tenant and trace, with this kind and payload. -/
structure AuditRow.Is (e : AuditRow) (tenant : TenantId) (trace : TraceId) (kind : AuditKind)
    (payload : Json) : Prop where
  tenant_id : e.tenant_id = tenant
  trace_id : e.trace_id = trace
  kind : e.kind = kind
  payload : e.payload = payload

theorem append_link (deps : Deps) (tenant : TenantId) (trace : TraceId) (kind : AuditKind)
    (payload : Json) (t : Time) (db : Db) : ∃ e,
      (append deps tenant trace kind payload t db).audit = db.audit ++ [e] ∧
        e.Is tenant trace kind payload := ⟨_, rfl, rfl, rfl, rfl, rfl⟩

/-- A landing apply appends its decision, its WRITE and, when it retires a row, its SUPERSEDE. -/
theorem landed_audit_rows {p : Landing} : ∃ d e s,
    (landed deps p.tenant p.trace p.clock p.governed db).audit = db.audit ++ d :: e :: s ∧
    d.Is p.tenant p.trace .DECISION p.governed.record.model_dump ∧
    e.Is p.tenant p.trace .WRITE
      (write_payload (assertion_id deps.uuid p.governed) p.governed.candidate.predicate) ∧
    match retires p.governed with
    | some old => ∃ q, s = [q] ∧
        q.Is p.tenant p.trace .SUPERSEDE (supersede_payload old (assertion_id deps.uuid p.governed))
    | none => s = [] := by
  obtain ⟨d, hd, hdis⟩ := append_link deps p.tenant p.trace .DECISION p.governed.record.model_dump
    p.clock.applied_at db
  set db₁ := append_decision deps p.governed.record p.tenant p.trace p.clock.applied_at db
  obtain ⟨e, he, heis⟩ := append_link deps p.tenant p.trace .WRITE
    (write_payload (assertion_id deps.uuid p.governed) p.governed.candidate.predicate)
    p.clock.applied_at db₁
  set db₂ := append deps p.tenant p.trace .WRITE
    (write_payload (assertion_id deps.uuid p.governed) p.governed.candidate.predicate)
    p.clock.applied_at db₁
  have hd : db₁.audit = db.audit ++ [d] := hd
  cases hret : retires p.governed with
  | none =>
      refine ⟨d, e, [], ?_, hdis, heis, rfl⟩
      have hland : (landed deps p.tenant p.trace p.clock p.governed db).audit = db₂.audit := by
        simp only [landed, landed_audit, hret]; rfl
      rw [hland, he, hd, List.append_assoc]
      rfl
  | some old =>
      obtain ⟨q, hq, hqis⟩ := append_link deps p.tenant p.trace .SUPERSEDE
        (supersede_payload old (assertion_id deps.uuid p.governed)) p.clock.applied_at db₂
      refine ⟨d, e, [q], ?_, hdis, heis, q, rfl, hqis⟩
      have hland : (landed deps p.tenant p.trace p.clock p.governed db).audit =
          (append deps p.tenant p.trace .SUPERSEDE
            (supersede_payload old (assertion_id deps.uuid p.governed)) p.clock.applied_at
            db₂).audit := by
        simp only [landed, landed_audit, hret]; rfl
      rw [hland, hq, he, hd, List.append_assoc, List.append_assoc]
      rfl

theorem write_field {e : AuditRow} {tenant : TenantId} {trace : TraceId} {aid : AssertionId}
    {predicate : String} (h : e.Is tenant trace .WRITE (write_payload aid predicate)) :
    e.field "assertion_id" = some aid := by
  simp [AuditRow.field, h.payload, write_payload, JsonObj.ofList, JsonObj.get, Except.toOption]

theorem supersede_fields {e : AuditRow} {tenant : TenantId} {trace : TraceId} {old new : AssertionId}
    (h : e.Is tenant trace .SUPERSEDE (supersede_payload old new)) :
    e.field "retired" = some old ∧ e.field "by" = some new := by
  simp [AuditRow.field, h.payload, supersede_payload, JsonObj.ofList, JsonObj.get, Except.toOption]

/-- It adds one WRITE event. -/
theorem landed_writes {p : Landing} : ∃ e : AuditRow,
    ((landed deps p.tenant p.trace p.clock p.governed db).audit.filter fun e => e.kind == .WRITE) =
      (db.audit.filter fun e => e.kind == .WRITE) ++ [e] ∧
    e.Is p.tenant p.trace .WRITE
      (write_payload (assertion_id deps.uuid p.governed) p.governed.candidate.predicate) := by
  obtain ⟨d, e, s, heq, hd, he, hs⟩ := @landed_audit_rows deps db p
  refine ⟨e, ?_, he⟩
  rw [heq]
  cases hret : retires p.governed with
  | none =>
      rw [hret] at hs
      simp [hd.kind, he.kind, hs]
  | some old =>
      rw [hret] at hs
      obtain ⟨q, rfl, hq⟩ := hs
      simp [hd.kind, he.kind, hq.kind]

/-- It adds one SUPERSEDE event if it retires a row, else none. -/
theorem landed_supersedes {p : Landing} :
    match retires p.governed with
    | some old => ∃ e : AuditRow,
        ((landed deps p.tenant p.trace p.clock p.governed db).audit.filter fun e =>
          e.kind == .SUPERSEDE) = (db.audit.filter fun e => e.kind == .SUPERSEDE) ++ [e] ∧
        e.Is p.tenant p.trace .SUPERSEDE
          (supersede_payload old (assertion_id deps.uuid p.governed))
    | none =>
        ((landed deps p.tenant p.trace p.clock p.governed db).audit.filter fun e =>
          e.kind == .SUPERSEDE) = db.audit.filter fun e => e.kind == .SUPERSEDE := by
  obtain ⟨d, e, s, heq, hd, he, hs⟩ := @landed_audit_rows deps db p
  rw [heq]
  cases hret : retires p.governed with
  | none =>
      rw [hret] at hs
      simp [hd.kind, he.kind, hs]
  | some old =>
      rw [hret] at hs
      obtain ⟨q, rfl, hq⟩ := hs
      exact ⟨q, by simp [hd.kind, he.kind, hq.kind], hq⟩

/-! ### Chain and state -/

/-- Reading a tenant's rows is reading the table and passing over other tenants' rows. -/
theorem rows_map {β : Type} {tenant : TenantId} {f : AssertionRow → β} :
    (db.rows tenant).map f =
      db.assertions.filterMap fun r => if r.tenant_id == tenant then some (f r) else none := by
  rw [Db.rows, ← List.filterMap_eq_map, List.filterMap_filter]
  rfl

theorem superseded_map {tenant : TenantId} :
    (((db.rows tenant).filter fun r => r.superseded_by.isSome).map fun r =>
        (some r.id, r.superseded_by)) =
      db.assertions.filterMap fun r => if r.tenant_id == tenant then
        if r.superseded_by.isSome then some (some r.id, r.superseded_by) else none else none := by
  rw [Db.rows, ← List.filterMap_eq_map, List.filterMap_filter, List.filterMap_filter]
  rfl

/-- A reading that a retirement does not change gains what the fresh row reads as, if it went in. -/
theorem landed_filterMap {β : Type} {h : AssertionRow → Option β} {p : Landing}
    (hret : ∀ t n r, h (AssertionRow.retire t n r) = h r)
    (hnew : assertion_id deps.uuid p.governed ∉ db.ids) :
    (landed deps p.tenant p.trace p.clock p.governed db).assertions.filterMap h =
      db.assertions.filterMap h ++ (h (fresh_row deps p.tenant p.clock p.governed)).toList := by
  have hins : (insertNew AssertionRow.id (fresh_row deps p.tenant p.clock p.governed)
      db.assertions).filterMap h =
      db.assertions.filterMap h ++ (h (fresh_row deps p.tenant p.clock p.governed)).toList := by
    rw [insertNew_new hnew, List.filterMap_append]
    cases hf : h (fresh_row deps p.tenant p.clock p.governed) <;> simp [hf]
  simp only [landed, landed_assertions]
  cases retires p.governed with
  | none => exact hins
  | some old => rw [filterMap_updateWhere fun r _ _ => hret _ _ r]; exact hins

/-- A replay leaves the ids it found. -/
theorem landed_ids_old {p : Landing} {tenant : TenantId}
    (hold : assertion_id deps.uuid p.governed ∈ db.ids) :
    ((landed deps p.tenant p.trace p.clock p.governed db).rows tenant).map (fun r => some r.id) =
      (db.rows tenant).map fun r => some r.id := by
  rw [rows_map, rows_map]
  simp only [landed, landed_assertions]
  have hins : insertNew AssertionRow.id (fresh_row deps p.tenant p.clock p.governed) db.assertions =
      db.assertions := insertNew_old hold
  rw [hins]
  cases retires p.governed with
  | none => rfl
  | some old => exact filterMap_updateWhere fun _ _ _ => rfl

theorem events_append {db' : Db} {tenant : TenantId} {kind : AuditKind} {e : AuditRow}
    (h : (db'.audit.filter fun e => e.kind == kind) = (db.audit.filter fun e => e.kind == kind) ++ [e]) :
    db'.events tenant kind = db.events tenant kind ++ if e.tenant_id == tenant then [e] else [] := by
  rw [Db.events, h, List.filter_append, List.filter_singleton, cond_eq_ite]
  rfl

/-- The pair a landing apply adds to a tenant's superseded rows. -/
theorem landed_superseded {p : Landing} (hwf : Wf deps.uuid db) (hu : Unretired db)
    (hl : Lands deps p.tenant p.clock p.governed db) {old : AssertionId}
    (hret : retires p.governed = some old) {tenant : TenantId} :
    ((((landed deps p.tenant p.trace p.clock p.governed db).rows tenant).filter fun r =>
      r.superseded_by.isSome).map fun r => (some r.id, r.superseded_by)).Perm
      ((((db.rows tenant).filter fun r => r.superseded_by.isSome).map fun r =>
        (some r.id, r.superseded_by)) ++ if p.tenant == tenant then
          [(some old, some (assertion_id deps.uuid p.governed))] else []) := by
  obtain ⟨hne, q, hq, hqs, -⟩ := hl.target old hret
  obtain ⟨rfl, hlive, ht⟩ := supersedes_iff.mp hqs
  set h : AssertionRow → Option (Option AssertionId × Option AssertionId) := fun r =>
    if r.tenant_id == tenant then
      if r.superseded_by.isSome then some (some r.id, r.superseded_by) else none else none
  set t := insertNew AssertionRow.id (fresh_row deps p.tenant p.clock p.governed) db.assertions with htab
  have hnd : t.Nodup := (nodup_insertNew hwf.ids_nodup).of_map
  have hqt : q ∈ t := mem_insertNew_of_mem hq
  have hins : t.filterMap h = db.assertions.filterMap h := by
    by_cases hnew : assertion_id deps.uuid p.governed ∈ db.ids
    · rw [htab, insertNew_old hnew]
    · have hfresh : h (fresh_row deps p.tenant p.clock p.governed) = none := by
        simp [h, fresh_row, assertion_params, fresh]
      rw [htab, insertNew_new hnew, List.filterMap_append]
      simp [hfresh]
  have hrows : (landed deps p.tenant p.trace p.clock p.governed db).assertions =
      updateWhere (supersedes p.tenant q.id)
        (AssertionRow.retire p.clock.applied_at (assertion_id deps.uuid p.governed)) t := by
    simp only [landed, landed_assertions, hret]
    rfl
  rw [superseded_map, superseded_map, hrows, ← hins]
  by_cases hten : p.tenant == tenant
  · rw [if_pos hten]
    have hqten : q.tenant_id == tenant := ht ▸ hten
    refine filterMap_updateWhere_perm hnd hqt (fun r hr => ?_) ?_ ?_
    · constructor
      · intro hs
        have hr := mem_old_of_supersedes hne hs hr
        exact hwf.eq_of_id hr hq (supersedes_iff.mp hs).1
      · rintro rfl
        exact hqs
    · simp [hu q hq hlive]
    · simp [AssertionRow.retire, hqten]
  · rw [if_neg hten, List.append_nil, filterMap_updateWhere]
    intro r _ hs
    have hrt : (r.tenant_id == tenant) = false := by
      rw [(supersedes_iff.mp hs).2.2]
      exact Bool.eq_false_iff.mpr hten
    simp [AssertionRow.retire, hrt]

/-- A landing apply keeps chain and state in correspondence if and only if its id is new. -/
theorem chained_landed {p : Landing} (hc : Chained db) (hwf : Wf deps.uuid db) (hu : Unretired db)
    (hl : Lands deps p.tenant p.clock p.governed db) :
    Chained (landed deps p.tenant p.trace p.clock p.governed db) ↔
      assertion_id deps.uuid p.governed ∉ db.ids := by
  obtain ⟨e, hwrites, he⟩ := @landed_writes deps db p
  constructor
  · intro hc' hold
    -- one more event and no more rows
    have hlen := (hc'.writes p.tenant).length_eq
    have hlen₀ := (hc.writes p.tenant).length_eq
    rw [landed_ids_old hold, events_append hwrites, if_pos (by simp [he.tenant_id])] at hlen
    simp only [List.map_append, List.length_append, List.length_map, List.length_singleton] at *
    omega
  · intro hnew
    refine ⟨fun tenant => ?_, fun tenant => ?_⟩
    · rw [events_append hwrites, List.map_append, rows_map,
        landed_filterMap (fun _ _ _ => rfl) hnew, ← rows_map]
      refine (hc.writes tenant).append ?_
      rw [he.tenant_id]
      have hfresh : (fresh_row deps p.tenant p.clock p.governed).tenant_id = p.tenant := rfl
      rw [hfresh]
      split <;> simp [write_field he]
    · have hevents := @landed_supersedes deps db p
      cases hret : retires p.governed with
      | none =>
          rw [hret] at hevents
          have hev : (landed deps p.tenant p.trace p.clock p.governed db).events tenant .SUPERSEDE =
              db.events tenant .SUPERSEDE := by rw [Db.events, hevents]; rfl
          have hrows : (landed deps p.tenant p.trace p.clock p.governed db).assertions =
              insertNew AssertionRow.id (fresh_row deps p.tenant p.clock p.governed)
                db.assertions := by
            simp only [landed, landed_assertions, hret]
          rw [hev, superseded_map, hrows, insertNew_new hnew, List.filterMap_append]
          have hc := hc.supersedes tenant
          rw [superseded_map] at hc
          simpa [fresh_row, assertion_params, fresh] using hc
      | some old =>
          rw [hret] at hevents
          obtain ⟨q, hq, hqis⟩ := hevents
          refine .trans ?_ (landed_superseded hwf hu hl hret).symm
          rw [events_append hq, List.map_append]
          refine (hc.supersedes tenant).append ?_
          rw [hqis.tenant_id]
          split <;> simp [supersede_fields hqis]

/-- A step that lands nothing leaves the correspondence alone. -/
theorem Unlanded.chained (hu : Unlanded w w') (hc : Chained w.db) : Chained w'.db := by
  obtain ⟨f, hrows, hf⟩ := hu.rows
  have hevents : ∀ tenant k, k ≠ .DECISION → w'.db.events tenant k = w.db.events tenant k :=
    fun tenant k hk => by rw [Db.events, hu.audit k hk]; rfl
  refine ⟨fun tenant => ?_, fun tenant => ?_⟩
  · rw [hevents tenant _ (by simp), rows_map, hrows, List.filterMap_map]
    have hread : ((fun r : AssertionRow => if r.tenant_id == tenant then some (some r.id) else none) ∘
        f) = fun r => if r.tenant_id == tenant then some (some r.id) else none := by
      funext r
      simp only [Function.comp]
      rw [hf]
    rw [hread, ← rows_map]
    exact hc.writes tenant
  · rw [hevents tenant _ (by simp), superseded_map, hrows, List.filterMap_map]
    have hread : ((fun r : AssertionRow => if r.tenant_id == tenant then
        if r.superseded_by.isSome then some (some r.id, r.superseded_by) else none else none) ∘ f) =
        fun r => if r.tenant_id == tenant then
          if r.superseded_by.isSome then some (some r.id, r.superseded_by) else none else none := by
      funext r
      simp only [Function.comp]
      rw [hf]
    rw [hread, ← superseded_map]
    exact hc.supersedes tenant

/-- The step lands no apply that derives a stored id. -/
def Fresh (env : Env G) (w : World G) (l : Label) : Prop :=
  ∀ p ∈ landing env w l, assertion_id env.deps.uuid p.governed ∉ w.db.ids

/-- CORRECT: WRITE and SUPERSEDE events correspond one for one to rows and superseded rows in every
    state of a run if and only if no apply of it that lands derives a stored id. -/
theorem chained_iff_fresh (env : Env G) (ls : List Label) :
    Always (step_governed env) (fun w => Chained w.db) env.init ls ↔
      Along (step_governed env) (Fresh env) env.init ls := by
  refine always_iff_along (I := fun w => Wf env.deps.uuid w.db ∧ Unretired w.db) ?_ ?_ ?_
    ⟨.empty, fun _ hr => absurd hr List.not_mem_nil⟩ ⟨fun _ => .refl _, fun _ => .refl _⟩
  · rintro w l w' h ⟨hi, hr⟩
    exact ⟨step_wf (step_of_governed h).1 hi, step_unretired h hi hr⟩
  · intro w l h p hp
    rw [landing_of_disabled h] at hp
    cases hp
  · rintro w l w' h ⟨hi, hr⟩ hc
    unfold Fresh
    cases hp : landing env w l with
    | none => simpa using (step_unlanded hp hi h).chained hc
    | some p =>
        obtain ⟨_, _, _, -, -, -, -, -, hl⟩ := landing_some hp
        rw [(step_landing hp hi (step_of_governed h).1).1, chained_landed hc hi hr hl]
        simp

/-! ### Evidence -/

/-- The row holds the fact the candidate states. -/
structure AssertionRow.States (r : AssertionRow) (g : GovernedCandidate) : Prop where
  «namespace» : r.namespace = g.candidate.namespace
  subject_id : r.subject_id = g.subject_id
  predicate : r.predicate = g.candidate.predicate
  object : r.object_json = g.candidate.object.toJson

/-- Every citation is that of an apply whose candidate states what the row states; the id an outcome
    or a WRITE event names holds its candidate's object. -/
structure Backed (uuid : Uuid5) (w : World G) : Prop where
  cited : ∀ c ∈ w.db.provenance, ∀ r ∈ w.db.assertions, r.id = c.assertion_id →
    ∃ e ∈ w.log, e.written = some r.id ∧ c = fresh_citation uuid e.governed ∧ r.States e.governed
  named : ∀ e ∈ w.log, ∀ aid, e.written = some aid →
    ∃ r ∈ w.db.assertions, r.id = aid ∧ r.object_json = e.governed.candidate.object.toJson
  events : List.Forall₂ (fun (ev : AuditRow) (e : LogEntry) => ev.trace_id = e.trace ∧
      ∃ r ∈ w.db.assertions, ev.field "assertion_id" = some r.id ∧
        r.object_json = e.governed.candidate.object.toJson)
    (w.db.audit.filter fun e => e.kind == .WRITE) (w.log.filter fun e => e.written.isSome)

/-- An apply that lands on a stored id restates the row's object, and its whole fact unless its
    citation is stored too. -/
def Landing.Faithful (deps : Deps) (db : Db) (p : Landing) : Prop :=
  ∀ r ∈ db.assertions, r.id = assertion_id deps.uuid p.governed →
    r.object_json = p.governed.candidate.object.toJson ∧
      (r.States p.governed ∨
        (fresh_citation deps.uuid p.governed).id ∈ db.provenance.map ProvenanceRow.id)

/-- The step lands no apply that is not faithful. -/
def Faithful (env : Env G) (w : World G) (l : Label) : Prop :=
  ∀ p ∈ landing env w l, p.Faithful env.deps w.db

/-- What ties the log to the tables in every run: WRITE events are the writing applies in order, and
    each apply's citation is stored. -/
structure Logged (uuid : Uuid5) (w : World G) : Prop where
  events : List.Forall₂ (fun (ev : AuditRow) (e : LogEntry) => ev.trace_id = e.trace ∧
      ev.field "assertion_id" = e.written)
    (w.db.audit.filter fun e => e.kind == .WRITE) (w.log.filter fun e => e.written.isSome)
  cited : ∀ e ∈ w.log, e.written.isSome = true →
    (fresh_citation uuid e.governed).id ∈ w.db.provenance.map ProvenanceRow.id

/-- The events clause of `Backed` follows from the one about outcomes. -/
theorem Logged.backed {uuid : Uuid5} (h : Logged uuid w)
    (hnamed : ∀ e ∈ w.log, ∀ aid, e.written = some aid →
      ∃ r ∈ w.db.assertions, r.id = aid ∧ r.object_json = e.governed.candidate.object.toJson) :
    List.Forall₂ (fun (ev : AuditRow) (e : LogEntry) => ev.trace_id = e.trace ∧
      ∃ r ∈ w.db.assertions, ev.field "assertion_id" = some r.id ∧
        r.object_json = e.governed.candidate.object.toJson)
    (w.db.audit.filter fun e => e.kind == .WRITE) (w.log.filter fun e => e.written.isSome) := by
  refine (List.forall₂_iff_get.mp h.events).elim fun hlen hget => List.forall₂_iff_get.mpr
    ⟨hlen, fun i h₁ h₂ => ?_⟩
  obtain ⟨htrace, hfield⟩ := hget i h₁ h₂
  obtain ⟨hmem, hsome⟩ := List.mem_filter.mp (List.get_mem _ ⟨i, h₂⟩)
  obtain ⟨aid, haid⟩ := Option.isSome_iff_exists.mp hsome
  obtain ⟨r, hr, rfl, hobj⟩ := hnamed _ hmem aid haid
  exact ⟨htrace, r, hr, hfield.trans haid, hobj⟩

theorem landed_log {p : Landing} (h : w'.log = w.log ++
    [⟨p.tenant, p.trace, p.governed, landed_outcome deps p.governed⟩]) :
    (w'.log.filter fun e => e.written.isSome) = (w.log.filter fun e => e.written.isSome) ++
      [⟨p.tenant, p.trace, p.governed, landed_outcome deps p.governed⟩] := by
  rw [h, List.filter_append]
  simp [LogEntry.written, landed_outcome]

theorem step_logged (h : step_governed env w l = some w') (hi : Wf env.deps.uuid w.db)
    (hg : Logged env.deps.uuid w) : Logged env.deps.uuid w' := by
  cases hp : landing env w l with
  | none =>
      have hu := step_unlanded hp hi h
      refine ⟨?_, fun e he hw => ?_⟩
      · rw [hu.audit _ (by simp), hu.log]
        exact hg.events
      · have hmem : e ∈ w.log.filter fun e => e.written.isSome :=
          hu.log ▸ List.mem_filter.mpr ⟨he, hw⟩
        rw [hu.provenance]
        exact hg.cited e (List.mem_filter.mp hmem).1 hw
  | some p =>
      obtain ⟨hdb, hlog⟩ := step_landing hp hi (step_of_governed h).1
      obtain ⟨ev, hwrites, hev⟩ := @landed_writes env.deps w.db p
      refine ⟨?_, fun e he hw => ?_⟩
      · rw [hdb, hwrites, landed_log hlog]
        exact List.rel_append hg.events (.cons ⟨hev.trace_id, write_field hev⟩ .nil)
      · rw [hdb]
        rw [hlog] at he
        rcases List.mem_append.mp he with he | he
        · obtain ⟨c, hc, hid⟩ := List.mem_map.mp (hg.cited e he hw)
          exact List.mem_map.mpr ⟨c, mem_insertNew_of_mem hc, hid⟩
        · obtain rfl := List.mem_singleton.mp he
          exact key_mem_insertNew

theorem AssertionRow.States.step {r r' : AssertionRow} {g : GovernedCandidate} (h : RowStep r r') :
    r.States g ↔ r'.States g := by
  rw [h.facts]
  exact ⟨fun ⟨a, b, c, d⟩ => ⟨a, b, c, d⟩, fun ⟨a, b, c, d⟩ => ⟨a, b, c, d⟩⟩

/-- A row under an id that was there before is what that row became. -/
theorem Db.Evolves.old_row {uuid : Uuid5} {db db' : Db} (h : db.Evolves db') (hwf : Wf uuid db')
    {r' : AssertionRow} (hr' : r' ∈ db'.assertions) (hid : r'.id ∈ db.ids) :
    ∃ r ∈ db.assertions, RowStep r r' := by
  obtain ⟨r, hr, hrid⟩ := List.mem_map.mp hid
  exact ⟨r, hr, h.row_of_id hwf hr hr' hrid.symm⟩

/-- What was backed stays backed while the log grows. -/
theorem Backed.keep_cited {uuid : Uuid5} (hb : Backed uuid w) (hwf : Wf uuid w.db)
    (hwf' : Wf uuid w'.db) (he : w.db.Evolves w'.db)
    (hlog : ∀ e ∈ w.log, e.written.isSome = true → e ∈ w'.log) {c : ProvenanceRow}
    (hc : c ∈ w.db.provenance) {r' : AssertionRow} (hr' : r' ∈ w'.db.assertions)
    (hid : r'.id = c.assertion_id) :
    ∃ e ∈ w'.log, e.written = some r'.id ∧ c = fresh_citation uuid e.governed ∧
      r'.States e.governed := by
  obtain ⟨r, hr, hrr⟩ := he.old_row hwf' hr' (hid ▸ (hwf.cited c hc).1)
  obtain ⟨e, hel, hw, hce, hst⟩ := hb.cited c hc r hr (hrr.id ▸ hid)
  exact ⟨e, hlog e hel (by rw [hw]; rfl), hrr.id ▸ hw, hce, (AssertionRow.States.step hrr).mp hst⟩

theorem Backed.keep_named {uuid : Uuid5} (hb : Backed uuid w) (he : w.db.Evolves w'.db)
    {e : LogEntry} (hel : e ∈ w.log) {aid : AssertionId} (hw : e.written = some aid) :
    ∃ r ∈ w'.db.assertions, r.id = aid ∧ r.object_json = e.governed.candidate.object.toJson := by
  obtain ⟨r, hr, hid, hobj⟩ := hb.named e hel aid hw
  obtain ⟨r', hr', hrr⟩ := he.rows r hr
  exact ⟨r', hr', hrr.id.trans hid, hrr.object.trans hobj⟩

/-- A step that lands nothing leaves every fact backed. -/
theorem Unlanded.backed {uuid : Uuid5} (hu : Unlanded w w') (hb : Backed uuid w)
    (hwf : Wf uuid w.db) (hwf' : Wf uuid w'.db) (he : w.db.Evolves w'.db) (hg' : Logged uuid w') :
    Backed uuid w' := by
  have hlog : ∀ e, e.written.isSome = true → (e ∈ w'.log ↔ e ∈ w.log) := by
    intro e hw
    have h := congrArg (fun es => e ∈ es) hu.log
    simpa [List.mem_filter, hw] using h
  have hnamed : ∀ e ∈ w'.log, ∀ aid, e.written = some aid → ∃ r ∈ w'.db.assertions, r.id = aid ∧
      r.object_json = e.governed.candidate.object.toJson := fun e hel aid hw =>
    hb.keep_named he ((hlog e (by rw [hw]; rfl)).mp hel) hw
  refine ⟨fun c hc r' hr' hid => ?_, hnamed, hg'.backed hnamed⟩
  exact hb.keep_cited hwf hwf' he (fun e hel hw => (hlog e hw).mpr hel) (hu.provenance ▸ hc) hr' hid

/-- A landing apply leaves every fact backed if and only if it is faithful. -/
theorem backed_landed {p : Landing} (hb : Backed deps.uuid w) (hg : Logged deps.uuid w)
    (hg' : Logged deps.uuid w') (hwf : Wf deps.uuid w.db)
    (hl : Lands deps p.tenant p.clock p.governed w.db)
    (hdb : w'.db = landed deps p.tenant p.trace p.clock p.governed w.db)
    (hlog : w'.log = w.log ++
      [⟨p.tenant, p.trace, p.governed, landed_outcome deps p.governed⟩]) :
    Backed deps.uuid w' ↔ p.Faithful deps w.db := by
  have hwf' : Wf deps.uuid w'.db := hdb ▸ hwf.landed hl
  have he : w.db.Evolves w'.db := hdb ▸ landed_evolves
  have hnewlog : ⟨p.tenant, p.trace, p.governed, landed_outcome deps p.governed⟩ ∈ w'.log :=
    hlog ▸ List.mem_append_right _ List.mem_cons_self
  have hprov : w'.db.provenance = insertNew ProvenanceRow.id (fresh_citation deps.uuid p.governed)
      w.db.provenance := by rw [hdb]; rfl
  -- a row under the apply's id is what an old one became, or the fresh one
  have hunder : ∀ r' ∈ w'.db.assertions, r'.id = assertion_id deps.uuid p.governed →
      (∃ r ∈ w.db.assertions, RowStep r r') ∨
        r' = fresh_row deps p.tenant p.clock p.governed := by
    intro r' hr' hid
    by_cases hold : r'.id ∈ w.db.ids
    · exact Or.inl (he.old_row hwf' hr' hold)
    · have hfresh : fresh_row deps p.tenant p.clock p.governed ∈ w'.db.assertions :=
        hdb ▸ (mem_landed hwf hl).mpr (.fresh (hid ▸ hold))
      exact Or.inr (hwf'.eq_of_id hr' hfresh hid)
  constructor
  · intro hb' r hr hid
    obtain ⟨r', hr', hrr⟩ := he.rows r hr
    have hid' : r'.id = assertion_id deps.uuid p.governed := hrr.id.trans hid
    obtain ⟨q, hq, hqid, hobj⟩ := hb'.named _ hnewlog _ rfl
    obtain rfl : q = r' := hwf'.eq_of_id hq hr' (hqid.trans hid'.symm)
    refine ⟨hrr.object.symm.trans hobj, or_iff_not_imp_right.mpr fun hnew => ?_⟩
    have hc : fresh_citation deps.uuid p.governed ∈ w'.db.provenance :=
      hprov ▸ mem_insertNew.mpr (Or.inr ⟨rfl, hnew⟩)
    obtain ⟨e, hel, hw, hce, hst⟩ := hb'.cited _ hc _ hr' hid'
    rw [hlog] at hel
    rcases List.mem_append.mp hel with hel | hel
    · refine absurd ?_ hnew
      rw [hce]
      exact hg.cited e hel (by rw [hw]; rfl)
    · obtain rfl := List.mem_singleton.mp hel
      exact (AssertionRow.States.step hrr).mpr hst
  · intro hf
    have hnamed : ∀ e ∈ w'.log, ∀ aid, e.written = some aid → ∃ r ∈ w'.db.assertions, r.id = aid ∧
        r.object_json = e.governed.candidate.object.toJson := by
      intro e hel aid hw
      rw [hlog] at hel
      rcases List.mem_append.mp hel with hel | hel
      · exact hb.keep_named he hel hw
      · obtain rfl := List.mem_singleton.mp hel
        obtain rfl := Option.some.inj hw
        by_cases hold : assertion_id deps.uuid p.governed ∈ w.db.ids
        · obtain ⟨r, hr, hid⟩ := List.mem_map.mp hold
          obtain ⟨r', hr', hrr⟩ := he.rows r hr
          exact ⟨r', hr', hrr.id.trans hid, hrr.object.trans (hf r hr hid).1⟩
        · exact ⟨_, hdb ▸ (mem_landed hwf hl).mpr (.fresh hold), rfl, rfl⟩
    refine ⟨fun c hc r' hr' hid => ?_, hnamed, hg'.backed hnamed⟩
    rw [hprov] at hc
    rcases mem_insertNew.mp hc with hc | ⟨rfl, hnew⟩
    · exact hb.keep_cited hwf hwf' he (fun e hel _ => hlog ▸ List.mem_append_left _ hel) hc hr' hid
    · refine ⟨_, hnewlog, congrArg some hid.symm, rfl, ?_⟩
      rcases hunder r' hr' hid with ⟨r, hr, hrr⟩ | rfl
      · exact (AssertionRow.States.step hrr).mp
          ((hf r hr (hrr.id.symm.trans hid)).2.resolve_right hnew)
      · exact ⟨rfl, rfl, rfl, rfl⟩

/-- CORRECT: every stored fact is backed by its own evidence in every state of a run if and only if
    each apply of it that lands on a stored id is faithful to the row. -/
theorem backed_iff_faithful (env : Env G) (ls : List Label) :
    Always (step_governed env) (Backed env.deps.uuid) env.init ls ↔
      Along (step_governed env) (Faithful env) env.init ls := by
  refine always_iff_along (I := fun w => Wf env.deps.uuid w.db ∧ Logged env.deps.uuid w) ?_ ?_ ?_
    ⟨.empty, .nil, fun _ he => absurd he List.not_mem_nil⟩
    ⟨fun _ hc => absurd hc List.not_mem_nil, fun _ he => absurd he List.not_mem_nil, .nil⟩
  · rintro w l w' h ⟨hi, hg⟩
    exact ⟨step_wf (step_of_governed h).1 hi, step_logged h hi hg⟩
  · intro w l h p hp
    rw [landing_of_disabled h] at hp
    cases hp
  · rintro w l w' h ⟨hi, hg⟩ hb
    have hstep := (step_of_governed h).1
    have hg' := step_logged h hi hg
    unfold Faithful
    cases hp : landing env w l with
    | none =>
        simpa using (step_unlanded hp hi h).backed hb hi (step_wf hstep hi) (step_evolves hstep hi) hg'
    | some p =>
        obtain ⟨_, _, _, -, -, -, -, -, hl⟩ := landing_some hp
        obtain ⟨hdb, hlog⟩ := step_landing hp hi hstep
        rw [backed_landed hb hg hg' hi hl hdb hlog]
        simp

section Clinical

open GuardMem.Clinical

/-- One proposal is delivered twice before the relay runs; the second time extraction reads another
    language out of it. -/
def delivered_twice : List Label :=
  [proposal "t" [language "t" "c_1" "French" 10], scored 0 0, applied 0 20,
    proposal "t" [language "t" "c_1" "Spanish" 10], scored 1 0, applied 1 30]

/-- The replay's outcome names the row, and the row holds the first language. -/
theorem spanish_says_french : ¬ Always (step_governed Clinical.env) (Backed uuid) Clinical.env.init
    delivered_twice := by
  intro h
  have hrun : ∃ w ∈ run (step_governed Clinical.env) Clinical.env.init delivered_twice,
      ∃ e ∈ w.log, e.written = some (row_id "t" "c_1") ∧
        ∀ r ∈ w.db.assertions, r.id = row_id "t" "c_1" →
          r.object_json ≠ e.governed.candidate.object.toJson := by
    decide +kernel
  obtain ⟨w, hw, e, he, hid, hobj⟩ := hrun
  obtain ⟨r, hr, hrid, hro⟩ := (h.last hw).named e he _ hid
  exact hobj r hr hrid hro

/-- The same, with the same language both times. -/
def retried : List Label :=
  [proposal "t" [language "t" "c_1" "French" 10], scored 0 0, applied 0 20,
    proposal "t" [language "t" "c_1" "French" 10], scored 1 0, applied 1 30]

/-- The retry inserts nothing and appends a second WRITE event. -/
theorem two_writes_one_row : ¬ Always (step_governed Clinical.env) (fun w => Chained w.db)
    Clinical.env.init retried := by
  intro h
  have hrun : ∃ w ∈ run (step_governed Clinical.env) Clinical.env.init retried,
      (w.db.events "clinic" .WRITE).length = 2 ∧ (w.db.rows "clinic").length = 1 := by
    decide +kernel
  obtain ⟨w, hw, hevents, hrows⟩ := hrun
  have hlen := ((h.last hw).writes "clinic").length_eq
  simp [hevents, hrows] at hlen

end Clinical

end GuardMem
