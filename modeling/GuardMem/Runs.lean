import GuardMem.System

/-! What every run of the system keeps, whatever the interleaving.

    `Effect` says once what a step does to the database, the graph and the log; `SlotOrigin` and
    `PassOrigin` say where a delivery's and a pass's parts come from. From these: the database is
    always well formed, and rows and events only ever go one way (`Db.Evolves`). -/

namespace GuardMem

open Lib.Table Lib.Transition

variable {G : Type}

/-! ### What a step does -/

/-- What a step does to the database, the graph and the log. -/
inductive Effect (env : Env G) (w : World G) : Label → World G → Prop where
  | quiet {l w'} (hdb : w'.db = w.db) (hgraph : w'.graph = w.graph) (hlog : w'.log = w.log)
      (hland : landing env w l = none) : Effect env w l w'
  | refused {d clock x g seen rest reason} (hx : w.deliveries[d]? = some x)
      (hnext : next_apply x.slots = some (g, seen, rest)) (hw : refusal g = some reason) :
      Effect env w (.apply d clock) { w.setDelivery d { x with slots := rest } with
        db := append_decision env.deps g.record x.tenant x.trace clock.applied_at w.db
        log := w.log ++ [⟨x.tenant, x.trace, g, ⟨g.candidate.candidate_id, none, some reason⟩⟩] }
  | landed {d clock x g seen rest} (hx : w.deliveries[d]? = some x)
      (hnext : next_apply x.slots = some (g, seen, rest))
      (hl : Lands env.deps x.tenant clock g w.db) :
      Effect env w (.apply d clock) { w.setDelivery d { x with slots := rest } with
        db := landed env.deps x.tenant x.trace clock g w.db
        log := w.log ++ [⟨x.tenant, x.trace, g, landed_outcome env.deps g⟩] }
  | upserted {tenant now batch db'} (h : upsert env.deps tenant now batch w.db = .ok db') :
      Effect env w (.upsert tenant now batch) { w with db := db' }
  | claimed {locked batch} (h : IsClaim env.relay locked batch w.db) :
      Effect env w (.claim locked batch) { w with
        db := CLAIM_OUTBOX batch w.db
        passes := w.passes ++ [.of (claimed_events batch w.db)] }
  | wrote {p reply x e a r g' w'} (hx : w.passes[p]? = some x) (hstage : x.stage = .loaded e a)
      (hwrite : graph_write env.store reply a w.graph = (r, g')) (hdb : w'.db = w.db)
      (hgraph : w'.graph = g') (hlog : w'.log = w.log) : Effect env w (.write p reply) w'
  | completed {p t x e} (hx : w.passes[p]? = some x) (hstage : x.stage = .written e) :
      Effect env w (.complete p t)
        { w.setPass p ⟨x.todo, .idle⟩ with db := complete e t w.db }

variable {env : Env G} {w w' : World G} {l : Label}

/-- An apply lands when its decision is the delivery's next and the database admits it. -/
theorem landing_apply {d : ℕ} {clock : ApplyClock} {x : Delivery} {g : GovernedCandidate}
    {seen : List AssertionId} {rest : List Slot} (hx : w.deliveries[d]? = some x)
    (hnext : next_apply x.slots = some (g, seen, rest)) :
    landing env w (.apply d clock) =
      if Lands env.deps x.tenant clock g w.db then some ⟨x.tenant, x.trace, clock, g, seen⟩
      else none := by
  simp [landing, hx, hnext]

theorem step_apply_effect {d : ℕ} {clock : ApplyClock} (hi : Wf env.deps.uuid w.db)
    (h : step_apply env w d clock = some w') : Effect env w (.apply d clock) w' := by
  simp only [step_apply, Option.bind_eq_bind, Option.bind_eq_some_iff] at h
  obtain ⟨x, hx, ⟨g, seen, rest⟩, hnext, h⟩ := h
  cases hw : refusal g with
  | some reason =>
      simp only [apply_refused hw, Option.some.injEq] at h
      subst h
      exact .refused hx hnext hw
  | none =>
      simp only at h
      split at h
      · next o db' happly =>
          obtain rfl := Option.some.inj h
          obtain ⟨hl, rfl, rfl⟩ := (apply_writes_ok hi hw).mp happly
          exact .landed hx hnext hl
      · next exc happly =>
          obtain rfl := Option.some.inj h
          refine .quiet rfl rfl rfl ?_
          rw [landing_apply hx hnext, if_neg]
          intro hl
          have happly' : apply env.deps x.tenant x.trace clock g w.db = .error exc := happly
          rw [(apply_writes_ok hi hw).mpr ⟨hl, rfl, rfl⟩] at happly'
          cases happly'

theorem step_effect (hi : Wf env.deps.uuid w.db) (h : step env w l = some w') :
    Effect env w l w' := by
  cases l with
  | apply d clock => exact step_apply_effect hi h
  | deliver tenant ns trace cands =>
      simp only [step] at h
      split at h
      · obtain rfl := Option.some.inj h; exact .quiet rfl rfl rfl rfl
      · exact absurd h (by simp)
  | score d i reply =>
      simp only [step, Option.bind_eq_bind, Option.bind_eq_some_iff] at h
      obtain ⟨x, -, h⟩ := h
      split at h
      · obtain rfl := Option.some.inj h; exact .quiet rfl rfl rfl rfl
      · exact absurd h (by simp)
  | scoreFails d i =>
      simp only [step, Option.bind_eq_bind, Option.bind_eq_some_iff] at h
      obtain ⟨x, -, h⟩ := h
      split at h
      · obtain rfl := Option.some.inj h; exact .quiet rfl rfl rfl rfl
      · exact absurd h (by simp)
  | applyFails d =>
      simp only [step, Option.bind_eq_bind, Option.bind_eq_some_iff] at h
      obtain ⟨x, -, ⟨g, seen, rest⟩, -, h⟩ := h
      obtain rfl := Option.some.inj h
      exact .quiet rfl rfl rfl rfl
  | abandon d =>
      simp only [step, Option.bind_eq_bind, Option.bind_eq_some_iff] at h
      obtain ⟨x, -, h⟩ := h
      obtain rfl := Option.some.inj h
      exact .quiet rfl rfl rfl rfl
  | upsert tenant now batch =>
      simp only [step] at h
      split at h
      · next db' hu => obtain rfl := Option.some.inj h; exact .upserted hu
      · obtain rfl := Option.some.inj h; exact .quiet rfl rfl rfl rfl
  | claim locked batch =>
      simp only [step] at h
      split at h
      · next hc => obtain rfl := Option.some.inj h; exact .claimed hc
      · exact absurd h (by simp)
  | load p =>
      simp only [step, step_load, Option.bind_eq_bind, Option.bind_eq_some_iff] at h
      obtain ⟨x, -, h⟩ := h
      split at h
      · split at h <;> obtain rfl := Option.some.inj h <;> exact .quiet rfl rfl rfl rfl
      · exact absurd h (by simp)
  | write p reply =>
      simp only [step, step_write, Option.bind_eq_bind, Option.bind_eq_some_iff] at h
      obtain ⟨x, hx, h⟩ := h
      split at h
      · next e a hstage =>
          split at h <;> rename_i hwrite <;> obtain rfl := Option.some.inj h <;>
            exact .wrote hx hstage hwrite rfl rfl rfl
      · exact absurd h (by simp)
  | complete p t =>
      simp only [step, step_complete, Option.bind_eq_bind, Option.bind_eq_some_iff] at h
      obtain ⟨x, hx, h⟩ := h
      split at h
      · next e hstage => obtain rfl := Option.some.inj h; exact .completed hx hstage
      · exact absurd h (by simp)
  | crash p =>
      simp only [step, Option.bind_eq_bind, Option.bind_eq_some_iff] at h
      obtain ⟨x, -, h⟩ := h
      obtain rfl := Option.some.inj h
      exact .quiet rfl rfl rfl rfl

theorem step_of_governed (h : step_governed env w l = some w') :
    step env w l = some w' ∧ l.governed = true := by
  unfold step_governed at h
  split at h
  · next hg => exact ⟨h, hg⟩
  · exact absurd h (by simp)

/-- A governed run is a run. -/
theorem run_of_governed : ∀ {ls : List Label} {w w' : World G},
    run (step_governed env) w ls = some w' → run (step env) w ls = some w'
  | [], _, _, h => h
  | _ :: _, _, _, h => by
      obtain ⟨u, hu, hr⟩ := run_cons.mp h
      exact run_cons.mpr ⟨u, (step_of_governed hu).1, run_of_governed hr⟩

/-- A label that is not enabled lands nothing. -/
theorem landing_of_disabled (h : step_governed env w l = none) : landing env w l = none := by
  cases l with
  | apply d clock =>
      simp only [step_governed, Label.governed, if_true, step, step_apply] at h
      simp only [landing]
      cases hx : w.deliveries[d]? with
      | none => rfl
      | some x =>
          cases hn : next_apply x.slots with
          | none => simp [hn]
          | some q =>
              simp only [hx, hn, Option.bind_eq_bind, Option.bind_some] at h
              split at h <;> cases h
  | _ => rfl

/-! ### The database stays well formed -/

theorem step_wf (h : step env w l = some w') (hi : Wf env.deps.uuid w.db) :
    Wf env.deps.uuid w'.db := by
  cases step_effect hi h with
  | quiet hdb => exact hdb ▸ hi
  | refused _ _ _ => exact hi.append_decision
  | landed _ _ hl => exact hi.landed hl
  | upserted hu => exact hi.upsert hu
  | claimed _ => exact hi.claim
  | wrote _ _ _ hdb => exact hdb ▸ hi
  | completed _ _ => exact hi.complete

theorem run_wf {ls : List Label} (h : run (step env) env.init ls = some w) : Wf env.deps.uuid w.db :=
  inv_run (I := fun w => Wf env.deps.uuid w.db) (fun _ _ _ => step_wf) h .empty

/-! ### A governed step lands an apply, or writes nothing -/

/-- The landing is the next decision of a delivery, and it lands. -/
theorem landing_some {p : Landing} (h : landing env w l = some p) :
    ∃ d x rest, l = .apply d p.clock ∧ w.deliveries[d]? = some x ∧ x.tenant = p.tenant ∧
      x.trace = p.trace ∧ next_apply x.slots = some (p.governed, p.seen, rest) ∧
      Lands env.deps p.tenant p.clock p.governed w.db := by
  cases l with
  | apply d clock =>
      simp only [landing, Option.bind_eq_bind, Option.bind_eq_some_iff] at h
      obtain ⟨x, hx, ⟨g, seen, rest⟩, hnext, h⟩ := h
      simp only at h
      split at h
      · next hl =>
          obtain rfl := Option.some.inj h
          exact ⟨d, x, rest, rfl, hx, rfl, rfl, hnext, hl⟩
      · cases h
  | _ => cases h

/-- What a landing apply leaves. -/
theorem step_landing {p : Landing} (hp : landing env w l = some p) (hi : Wf env.deps.uuid w.db)
    (h : step env w l = some w') :
    w'.db = landed env.deps p.tenant p.trace p.clock p.governed w.db ∧
      w'.log = w.log ++ [⟨p.tenant, p.trace, p.governed, landed_outcome env.deps p.governed⟩] := by
  cases step_effect hi h with
  | quiet _ _ _ hland => rw [hland] at hp; cases hp
  | refused hx hnext hw =>
      rw [landing_apply hx hnext, if_neg fun hl => by rw [hl.writes] at hw; cases hw] at hp
      cases hp
  | landed hx hnext hl =>
      rw [landing_apply hx hnext, if_pos hl] at hp
      obtain rfl := Option.some.inj hp
      exact ⟨rfl, rfl⟩
  | upserted _ => cases hp
  | claimed _ => cases hp
  | wrote _ _ _ _ _ _ => cases hp
  | completed _ _ => cases hp

/-- What an apply wrote, by its log entry. -/
def LogEntry.written (e : LogEntry) : Option AssertionId := e.outcome.assertion_id

/-- A step that lands nothing: rows are at most revealed, citations stay, and of the audit events only
    decisions are added. -/
structure Unlanded (w w' : World G) : Prop where
  rows : ∃ f : AssertionRow → AssertionRow, w'.db.assertions = w.db.assertions.map f ∧
    ∀ r, f r = { r with visible := (f r).visible }
  provenance : w'.db.provenance = w.db.provenance
  audit : ∀ k, k ≠ .DECISION →
    (w'.db.audit.filter fun e => e.kind == k) = w.db.audit.filter fun e => e.kind == k
  log : w'.log.filter (fun e => e.written.isSome) = w.log.filter fun e => e.written.isSome

theorem Unlanded.of_db (hdb : w'.db = w.db) (hlog : w'.log = w.log) : Unlanded w w' where
  rows := ⟨fun r => r, by rw [hdb, List.map_id'], fun _ => rfl⟩
  provenance := by rw [hdb]
  audit k _ := by rw [hdb]
  log := by rw [hlog]

theorem step_unlanded (hp : landing env w l = none) (hi : Wf env.deps.uuid w.db)
    (h : step_governed env w l = some w') : Unlanded w w' := by
  obtain ⟨hstep, hgov⟩ := step_of_governed h
  cases step_effect hi hstep with
  | quiet hdb _ hlog _ => exact .of_db hdb hlog
  | @refused d clock x g seen rest reason hx hnext hw =>
      refine ⟨⟨fun r => r, (List.map_id' _).symm, fun _ => rfl⟩, rfl, fun k hk => ?_, ?_⟩
      · have hne : (AuditKind.DECISION == k) = false := by simpa using hk.symm
        simp [append_decision, append, next_link, List.filter_append, hne]
      · simp [List.filter_append, LogEntry.written]
  | landed hx hnext hl =>
      rw [landing_apply hx hnext, if_pos hl] at hp
      cases hp
  | upserted _ => cases hgov
  | claimed _ =>
      exact ⟨⟨fun r => r, (List.map_id' _).symm, fun _ => rfl⟩, rfl, fun _ _ => rfl, rfl⟩
  | wrote _ _ _ hdb _ hlog => exact .of_db hdb hlog
  | completed _ _ =>
      refine ⟨⟨_, rfl, fun r => ?_⟩, rfl, fun _ _ => rfl, rfl⟩
      split <;> rfl

/-! ### Rows and events only ever go one way -/

/-- `r` may become `r'`: its facts are fixed, a retired row is final, a visible row stays visible. -/
structure RowStep (r r' : AssertionRow) : Prop where
  facts : r' = { r with
    valid_to := r'.valid_to, superseded_by := r'.superseded_by, visible := r'.visible }
  retired : r.valid_to ≠ none → r'.valid_to = r.valid_to ∧ r'.superseded_by = r.superseded_by
  visible : r.visible = true → r'.visible = true

theorem RowStep.refl (r : AssertionRow) : RowStep r r := ⟨rfl, fun _ => ⟨rfl, rfl⟩, fun hv => hv⟩

theorem RowStep.trans {r s t : AssertionRow} (h : RowStep r s) (k : RowStep s t) : RowStep r t := by
  refine ⟨k.facts.trans ?_, fun hr => ?_, fun hr => k.visible (h.visible hr)⟩
  · rw [h.facts]
  · obtain ⟨hv, hs⟩ := h.retired hr
    obtain ⟨hv', hs'⟩ := k.retired (hv ▸ hr)
    exact ⟨hv'.trans hv, hs'.trans hs⟩

/-- The four columns a value is unique under, for a `ONE` predicate. -/
def AssertionRow.key (r : AssertionRow) : TenantId × Namespace × EntityId × String :=
  (r.tenant_id, r.namespace, r.subject_id, r.predicate)

theorem RowStep.id {r r' : AssertionRow} (h : RowStep r r') : r'.id = r.id := by rw [h.facts]

theorem RowStep.key {r r' : AssertionRow} (h : RowStep r r') : r'.key = r.key := by
  rw [h.facts]; rfl

theorem RowStep.object {r r' : AssertionRow} (h : RowStep r r') : r'.object_json = r.object_json := by
  rw [h.facts]

theorem RowStep.retraction {r r' : AssertionRow} (h : RowStep r r') :
    r'.retracted_at = r.retracted_at := by rw [h.facts]

theorem RowStep.retire (t : Time) (n : AssertionId) {r : AssertionRow} (h : r.valid_to = none) :
    RowStep r (r.retire t n) := ⟨rfl, fun hr => absurd h hr, fun hv => hv⟩

theorem RowStep.reveal (r : AssertionRow) : RowStep r { r with visible := true } :=
  ⟨rfl, fun _ => ⟨rfl, rfl⟩, fun _ => rfl⟩

/-- `o` may become `o'`: attempts are counted up, and once dispatched it stays so, at that time. -/
structure EventStep (o o' : OutboxRow) : Prop where
  facts : o' = { o with attempts := o'.attempts, dispatched_at := o'.dispatched_at }
  attempts : o.attempts ≤ o'.attempts
  dispatched : o.dispatched_at ≠ none → o'.dispatched_at = o.dispatched_at

theorem EventStep.refl (o : OutboxRow) : EventStep o o := ⟨rfl, le_refl _, fun _ => rfl⟩

theorem EventStep.trans {o p q : OutboxRow} (h : EventStep o p) (k : EventStep p q) :
    EventStep o q := by
  refine ⟨k.facts.trans ?_, h.attempts.trans k.attempts, fun ho => ?_⟩
  · rw [h.facts]
  · have hp := h.dispatched ho
    exact (k.dispatched (hp ▸ ho)).trans hp

theorem EventStep.id {o o' : OutboxRow} (h : EventStep o o') : o'.id = o.id := by rw [h.facts]

theorem EventStep.assertion_id {o o' : OutboxRow} (h : EventStep o o') :
    o'.assertion_id = o.assertion_id := by rw [h.facts]

/-- Every row and event of `db` has become one of `db'`. -/
structure Db.Evolves (db db' : Db) : Prop where
  rows : ∀ r ∈ db.assertions, ∃ r' ∈ db'.assertions, RowStep r r'
  events : ∀ o ∈ db.outbox, ∃ o' ∈ db'.outbox, EventStep o o'

theorem Db.Evolves.of_subset {db db' : Db} (hr : ∀ r ∈ db.assertions, r ∈ db'.assertions)
    (ho : ∀ o ∈ db.outbox, o ∈ db'.outbox) : db.Evolves db' :=
  ⟨fun r h => ⟨r, hr r h, .refl r⟩, fun o h => ⟨o, ho o h, .refl o⟩⟩

theorem Db.Evolves.refl (db : Db) : db.Evolves db := .of_subset (fun _ h => h) fun _ h => h

theorem Db.Evolves.trans {a b c : Db} (h : a.Evolves b) (k : b.Evolves c) : a.Evolves c := by
  constructor
  · intro r hr
    obtain ⟨s, hs, hrs⟩ := h.rows r hr
    obtain ⟨t, ht, hst⟩ := k.rows s hs
    exact ⟨t, ht, hrs.trans hst⟩
  · intro o ho
    obtain ⟨p, hp, hop⟩ := h.events o ho
    obtain ⟨q, hq, hpq⟩ := k.events p hp
    exact ⟨q, hq, hop.trans hpq⟩

/-- Updates in place of rows and events that may go that way. -/
theorem Db.Evolves.update {db db' : Db} {p : AssertionRow → Bool} {f : AssertionRow → AssertionRow}
    {q : OutboxRow → Bool} {g : OutboxRow → OutboxRow}
    (hf : ∀ r, p r = true → RowStep r (f r)) (hg : ∀ o, q o = true → EventStep o (g o))
    (ha : db'.assertions = updateWhere p f db.assertions)
    (ho : db'.outbox = updateWhere q g db.outbox) : db.Evolves db' := by
  constructor
  · intro r hr
    refine ⟨if p r then f r else r, ha ▸ mem_updateWhere.mpr ⟨r, hr, rfl⟩, ?_⟩
    split
    · next hp => exact hf r hp
    · exact .refl r
  · intro o h
    refine ⟨if q o then g o else o, ho ▸ mem_updateWhere.mpr ⟨o, h, rfl⟩, ?_⟩
    split
    · next hq => exact hg o hq
    · exact .refl o

/-- Where a row of the old table went is told by its id. -/
theorem Db.Evolves.row_of_id {uuid : Uuid5} {db db' : Db} (h : db.Evolves db') (hwf : Wf uuid db')
    {r r' : AssertionRow} (hr : r ∈ db.assertions) (hr' : r' ∈ db'.assertions) (hid : r'.id = r.id) :
    RowStep r r' := by
  obtain ⟨s, hs, hrs⟩ := h.rows r hr
  rwa [hwf.eq_of_id hr' hs (hid.trans hrs.id.symm)]

theorem Db.Evolves.event_of_id {uuid : Uuid5} {db db' : Db} (h : db.Evolves db') (hwf : Wf uuid db')
    {o o' : OutboxRow} (ho : o ∈ db.outbox) (ho' : o' ∈ db'.outbox)
    (hid : o'.assertion_id = o.assertion_id) : EventStep o o' := by
  obtain ⟨p, hp, hop⟩ := h.events o ho
  rwa [hwf.eq_of_event ho' hp (hid.trans hop.assertion_id.symm)]

variable {deps : Deps} {tenant : TenantId} {trace : TraceId} {clock : ApplyClock}
  {g : GovernedCandidate} {db : Db}

/-- Inserting the fresh row and event changes nothing that was there. -/
theorem inserted_evolves (deps : Deps) (tenant : TenantId) (clock : ApplyClock) (g : GovernedCandidate)
    (db : Db) : db.Evolves { db with
    assertions := insertNew AssertionRow.id (fresh_row deps tenant clock g) db.assertions
    outbox := insertNew OutboxRow.id (fresh_event deps.uuid tenant clock g) db.outbox } :=
  .of_subset (fun _ => mem_insertNew_of_mem) fun _ => mem_insertNew_of_mem

theorem landed_evolves : db.Evolves (landed deps tenant trace clock g db) := by
  refine (inserted_evolves deps tenant clock g db).trans ?_
  cases hr : retires g with
  | none =>
      refine .of_subset (fun r hr' => ?_) fun _ h => h
      simpa only [landed, landed_assertions, hr] using hr'
  | some old =>
      refine .update (p := supersedes tenant old) (q := fun _ => false) (g := fun o => o)
        (f := AssertionRow.retire clock.applied_at (assertion_id deps.uuid g))
        (fun r hs => .retire _ _ ?_) (fun _ h => by cases h)
        (by simp only [landed, landed_assertions, hr]) ?_
      · exact (supersedes_iff.mp hs).2.1
      · exact (updateWhere_false fun _ _ => rfl).symm

theorem claim_evolves {batch : List String} : db.Evolves (CLAIM_OUTBOX batch db) :=
  .update (p := fun _ => false) (f := fun r => r) (q := fun o => batch.contains o.id)
    (g := fun o => { o with attempts := o.attempts + 1 }) (fun _ h => by cases h)
    (fun o _ => ⟨rfl, Nat.le_succ _, fun _ => rfl⟩) (updateWhere_false fun _ _ => rfl).symm rfl

theorem complete_evolves {e : PendingEvent} {t : Time} : db.Evolves (complete e t db) := by
  refine .update (q := fun o => o.id == e.outbox_id && o.dispatched_at.isNone)
    (g := fun o => { o with dispatched_at := some t }) (fun r _ => .reveal r)
    (fun o ho => ⟨rfl, le_refl _, fun h => absurd ?_ h⟩) rfl rfl
  simp only [Bool.and_eq_true, Option.isNone_iff_eq_none] at ho
  exact ho.2

/-- An upsert keeps the rows and events it finds and adds its batch's own. -/
theorem upsert_rows {now : Time} {batch : List StoredAssertion} {db' : Db}
    (h : upsert deps tenant now batch db = .ok db') (hi : Wf deps.uuid db) :
    (∀ r ∈ db.assertions, r ∈ db'.assertions) ∧
    (∀ r ∈ db'.assertions, r ∈ db.assertions ∨
      ∃ a ∈ batch, r = assertion_params a tenant (deps.embedding a.predicate a.object)) ∧
    (∀ o ∈ db.outbox, o ∈ db'.outbox) ∧
    (∀ o ∈ db'.outbox, o ∈ db.outbox ∨ ∃ a ∈ batch, o = outbox_params deps.uuid a tenant now) := by
  unfold upsert at h
  split at h
  · obtain rfl := Except.ok.inj h
    exact ⟨fun _ h => h, fun _ h => Or.inl h, fun _ h => h, fun _ h => Or.inl h⟩
  · next prepared hp =>
      simp only [bind_ok, Prod.exists, transaction_ok, Except.ok.injEq, Prod.mk.injEq] at h
      obtain ⟨_, _, ⟨⟨d, hd, -, rfl⟩, -⟩, rfl⟩ := h
      exact write_in_rows hp hd hi

theorem step_evolves (h : step env w l = some w') (hi : Wf env.deps.uuid w.db) :
    w.db.Evolves w'.db := by
  cases step_effect hi h with
  | quiet hdb => exact hdb ▸ .refl _
  | refused _ _ _ => exact .of_subset (fun _ h => h) fun _ h => h
  | landed _ _ _ => exact landed_evolves
  | upserted hu =>
      obtain ⟨hrows, -, hevents, -⟩ := upsert_rows hu hi
      exact .of_subset hrows hevents
  | claimed _ => exact claim_evolves
  | wrote _ _ _ hdb => exact hdb ▸ .refl _
  | completed _ _ => exact complete_evolves

/-- CORRECT: over any run, a row's facts are fixed, a retired row is final, a visible row stays
    visible, and an event once dispatched stays dispatched at that time. -/
theorem run_evolves {ls : List Label} {w w' : World G} (h : run (step env) w ls = some w')
    (hi : Wf env.deps.uuid w.db) : w.db.Evolves w'.db :=
  rel_run (I := fun w => Wf env.deps.uuid w.db) (R := fun w w' => w.db.Evolves w'.db)
    (fun w => .refl w.db) (fun _ _ _ => .trans) (fun _ _ _ => step_wf) (fun _ _ _ => step_evolves) h hi

/-! ### Where a delivery's candidates come from -/

/-- Where a slot of a delivery comes from, a step later. -/
inductive SlotOrigin (env : Env G) (w : World G) (tenant : TenantId) (trace : TraceId) : Slot → Prop
  where
  | kept {y s} (hy : y ∈ w.deliveries) (htenant : y.tenant = tenant) (htrace : y.trace = trace)
      (hs : s ∈ y.slots) : SlotOrigin env w tenant trace s
  | failed : SlotOrigin env w tenant trace .failed
  | arrived {c : MemoryCandidate} (htenant : c.tenant_id = tenant) (htrace : c.trace_id = trace)
      (hfrom : c.valid_from = none) (hto : c.valid_to = none) :
      SlotOrigin env w tenant trace (.waiting c)
  | scored {y c reply g} (hy : y ∈ w.deliveries) (htenant : y.tenant = tenant)
      (htrace : y.trace = trace) (hc : .waiting c ∈ y.slots)
      (hscore : score_candidate env.deps tenant c reply w.db = .ok g) :
      SlotOrigin env w tenant trace
        (.scored g (seen_ids tenant c.namespace g.subject_id c.predicate w.db))

theorem next_apply_mem : ∀ {ss rest : List Slot} {g : GovernedCandidate} {seen : List AssertionId},
    next_apply ss = some (g, seen, rest) → .scored g seen ∈ ss ∧ ∀ s ∈ rest, s ∈ ss
  | [], _, _, _, h => by cases h
  | .failed :: ss, _, _, _, h => by
      obtain ⟨hg, hrest⟩ := @next_apply_mem ss _ _ _ h
      exact ⟨List.mem_cons_of_mem _ hg, fun s hs => List.mem_cons_of_mem _ (hrest s hs)⟩
  | .waiting _ :: _, _, _, _, h => by cases h
  | .scored g seen :: ss, _, _, _, h => by
      simp only [next_apply] at h
      split at h
      · cases h
      · obtain ⟨rfl, rfl, rfl⟩ := by simpa using h
        exact ⟨List.mem_cons_self, fun s hs => List.mem_cons_of_mem _ hs⟩

/-- The same, with what the step's label says of it. -/
inductive SlotStep (env : Env G) (w : World G) (l : Label) (tenant : TenantId) (trace : TraceId) :
    Slot → Prop where
  | kept {y s} (hy : y ∈ w.deliveries) (htenant : y.tenant = tenant) (htrace : y.trace = trace)
      (hs : s ∈ y.slots) : SlotStep env w l tenant trace s
  | failed : SlotStep env w l tenant trace .failed
  | arrived {ns cands c} (hl : l = .deliver tenant ns trace cands)
      (hcands : extracted tenant ns trace cands) (hc : c ∈ cands) :
      SlotStep env w l tenant trace (.waiting c)
  | scored {d i reply y c g} (hl : l = .score d i reply) (hy : w.deliveries[d]? = some y)
      (htenant : y.tenant = tenant) (htrace : y.trace = trace) (hc : y.slots[i]? = some (.waiting c))
      (hscore : score_candidate env.deps tenant c reply w.db = .ok g) :
      SlotStep env w l tenant trace
        (.scored g (seen_ids tenant c.namespace g.subject_id c.predicate w.db))

theorem SlotStep.origin {tenant : TenantId} {trace : TraceId} {s : Slot}
    (h : SlotStep env w l tenant trace s) : SlotOrigin env w tenant trace s := by
  rcases h with ⟨hy, ht, htr, hs⟩ | _ | ⟨-, hcands, hc⟩ | ⟨-, hy, ht, htr, hc, hscore⟩
  · exact .kept hy ht htr hs
  · exact .failed
  · obtain ⟨ht, -, htr, hfrom, hto⟩ := hcands.2 _ hc
    exact .arrived ht htr hfrom hto
  · exact .scored (List.mem_of_getElem? hy) ht htr (List.mem_of_getElem? hc) hscore

/-- Replacing one delivery's slots. -/
theorem slots_set {d : ℕ} {y x : Delivery} {ss : List Slot} {s : Slot}
    (hss : ∀ s ∈ ss, SlotStep env w l y.tenant y.trace s)
    (hx : x ∈ w.deliveries.set d { y with slots := ss }) (hs : s ∈ x.slots) :
    SlotStep env w l x.tenant x.trace s := by
  rcases List.mem_or_eq_of_mem_set hx with hx | rfl
  · exact .kept hx rfl rfl hs
  · exact hss s hs

/-- Replacing one slot of one delivery. -/
theorem slot_set {d i : ℕ} {y x : Delivery} {s' s : Slot} (hy : w.deliveries[d]? = some y)
    (hs' : SlotStep env w l y.tenant y.trace s')
    (hx : x ∈ w.deliveries.set d { y with slots := y.slots.set i s' }) (hs : s ∈ x.slots) :
    SlotStep env w l x.tenant x.trace s := by
  refine slots_set (fun s hs => ?_) hx hs
  rcases List.mem_or_eq_of_mem_set hs with hs | rfl
  · exact .kept (List.mem_of_getElem? hy) rfl rfl hs
  · exact hs'

theorem scored_slot_step {d i : ℕ} {y : Delivery} {c : MemoryCandidate} {reply : ScoreReply}
    (hy : w.deliveries[d]? = some y) (hc : y.slots[i]? = some (.waiting c)) :
    SlotStep env w (.score d i reply) y.tenant y.trace (scored_slot env.deps y.tenant c reply w.db) := by
  unfold scored_slot
  split
  · next g hg => exact .scored rfl hy rfl rfl hc hg
  · exact .failed

theorem step_slotSteps (h : step env w l = some w') {x : Delivery} (hx : x ∈ w'.deliveries) {s : Slot}
    (hs : s ∈ x.slots) : SlotStep env w l x.tenant x.trace s := by
  have same : w'.deliveries = w.deliveries → SlotStep env w l x.tenant x.trace s := fun hd =>
    .kept (hd ▸ hx) rfl rfl hs
  cases l with
  | deliver tenant ns trace cands =>
      simp only [step] at h
      split at h
      · next hex =>
          obtain rfl := Option.some.inj h
          rcases List.mem_append.mp hx with hx | hx
          · exact .kept hx rfl rfl hs
          · obtain rfl := List.mem_singleton.mp hx
            obtain ⟨c, hc, rfl⟩ := List.mem_map.mp hs
            exact .arrived rfl hex hc
      · cases h
  | score d i reply =>
      simp only [step, Option.bind_eq_bind, Option.bind_eq_some_iff] at h
      obtain ⟨y, hy, h⟩ := h
      split at h
      · next c hc =>
          obtain rfl := Option.some.inj h
          exact slot_set hy (scored_slot_step hy hc) hx hs
      · cases h
  | scoreFails d i =>
      simp only [step, Option.bind_eq_bind, Option.bind_eq_some_iff] at h
      obtain ⟨y, hy, h⟩ := h
      split at h
      · obtain rfl := Option.some.inj h
        exact slot_set hy .failed hx hs
      · cases h
  | apply d clock =>
      simp only [step, step_apply, Option.bind_eq_bind, Option.bind_eq_some_iff] at h
      obtain ⟨y, hy, ⟨g, seen, rest⟩, hnext, h⟩ := h
      have hrest : ∀ s ∈ rest, SlotStep env w (.apply d clock) y.tenant y.trace s := fun s hs =>
        .kept (List.mem_of_getElem? hy) rfl rfl ((next_apply_mem hnext).2 s hs)
      simp only at h
      split at h <;> obtain rfl := Option.some.inj h <;> exact slots_set hrest hx hs
  | applyFails d =>
      simp only [step, Option.bind_eq_bind, Option.bind_eq_some_iff] at h
      obtain ⟨y, hy, ⟨g, seen, rest⟩, hnext, h⟩ := h
      obtain rfl := Option.some.inj h
      exact slots_set (fun s hs => .kept (List.mem_of_getElem? hy) rfl rfl
        ((next_apply_mem hnext).2 s hs)) hx hs
  | abandon d =>
      simp only [step, Option.bind_eq_bind, Option.bind_eq_some_iff] at h
      obtain ⟨y, hy, h⟩ := h
      obtain rfl := Option.some.inj h
      exact slots_set (fun s hs => absurd hs List.not_mem_nil) hx hs
  | upsert tenant now batch =>
      simp only [step] at h
      split at h <;> obtain rfl := Option.some.inj h <;> exact same rfl
  | claim locked batch =>
      simp only [step] at h
      split at h
      · obtain rfl := Option.some.inj h; exact same rfl
      · cases h
  | load p =>
      simp only [step, step_load, Option.bind_eq_bind, Option.bind_eq_some_iff] at h
      obtain ⟨_, -, h⟩ := h
      split at h
      · split at h <;> obtain rfl := Option.some.inj h <;> exact same rfl
      · cases h
  | write p reply =>
      simp only [step, step_write, Option.bind_eq_bind, Option.bind_eq_some_iff] at h
      obtain ⟨_, -, h⟩ := h
      split at h
      · split at h <;> obtain rfl := Option.some.inj h <;> exact same rfl
      · cases h
  | complete p t =>
      simp only [step, step_complete, Option.bind_eq_bind, Option.bind_eq_some_iff] at h
      obtain ⟨_, -, h⟩ := h
      split at h
      · obtain rfl := Option.some.inj h; exact same rfl
      · cases h
  | crash p =>
      simp only [step, Option.bind_eq_bind, Option.bind_eq_some_iff] at h
      obtain ⟨_, -, h⟩ := h
      obtain rfl := Option.some.inj h
      exact same rfl

theorem step_slots (h : step env w l = some w') {x : Delivery} (hx : x ∈ w'.deliveries) {s : Slot}
    (hs : s ∈ x.slots) : SlotOrigin env w x.tenant x.trace s := (step_slotSteps h hx hs).origin

/-- The key a decision writes under. -/
def GovernedCandidate.key (tenant : TenantId) (g : GovernedCandidate) :
    TenantId × Namespace × EntityId × String :=
  (tenant, g.candidate.namespace, g.subject_id, g.candidate.predicate)

/-- A row readers are served: visible and believed now. -/
def AssertionRow.served (r : AssertionRow) : Bool := r.visible && r.live

theorem served_iff {r : AssertionRow} : r.served = true ↔ r.visible = true ∧ r.live = true := by
  simp [AssertionRow.served]

@[simp] theorem fresh_row_key : (fresh_row deps tenant clock g).key = g.key tenant := rfl

theorem readable_iff {ns : Namespace} {sid : EntityId} {predicate : String} {r : AssertionRow} :
    readable tenant ns sid predicate r = true ↔ r.key = (tenant, ns, sid, predicate) ∧
      r.visible = true ∧ r.live = true ∧ r.embedding.isSome = true := by
  simp only [readable, AssertionRow.key, AssertionRow.live, Bool.and_eq_true, beq_iff_eq,
    Prod.mk.injEq]
  tauto

/-- What holds of a slot: it is stamped as its proposal, and what it retires was readable under its
    own key when it was scored. -/
def Slot.Ok (db : Db) (tenant : TenantId) (trace : TraceId) : Slot → Prop
  | .failed => True
  | .waiting c => c.tenant_id = tenant ∧ c.trace_id = trace ∧ c.valid_from = none ∧ c.valid_to = none
  | .scored g seen => (g.candidate.tenant_id = tenant ∧ g.candidate.trace_id = trace) ∧
      ∀ old, retires g = some old → old ∈ seen ∧
        ∃ r ∈ db.assertions, r.id = old ∧ r.key = g.key tenant ∧ r.visible = true

theorem Slot.Ok.evolves {db' : Db} {s : Slot} (h : s.Ok db tenant trace) (he : db.Evolves db') :
    s.Ok db' tenant trace := by
  cases s with
  | failed => exact trivial
  | waiting c => exact h
  | scored g seen =>
      refine ⟨h.1, fun old hold => ?_⟩
      obtain ⟨hseen, r, hr, hid, hkey, hv⟩ := h.2 old hold
      obtain ⟨r', hr', hstep⟩ := he.rows r hr
      exact ⟨hseen, r', hr', hstep.id.trans hid, hstep.key.trans hkey, hstep.visible hv⟩

/-- Every slot of every delivery is in order. -/
def SlotsOk (w : World G) : Prop := ∀ x ∈ w.deliveries, ∀ s ∈ x.slots, s.Ok w.db x.tenant x.trace

theorem retires_some {old : AssertionId} (h : retires g = some old) :
    g.record.conflict.incumbent_assertion_id = some old := by
  unfold retires at h
  split at h
  · exact h
  · cases h

/-- A candidate is scored against what was readable under its key. -/
theorem scored_ok {c : MemoryCandidate} {reply : ScoreReply} {db : Db} (htenant : c.tenant_id = tenant)
    (htrace : c.trace_id = trace) (hg : score_candidate deps tenant c reply db = .ok g) :
    Slot.Ok db tenant trace (.scored g (seen_ids tenant c.namespace g.subject_id c.predicate db)) := by
  obtain ⟨rfl, -⟩ := score_candidate_ok hg
  refine ⟨⟨htenant, htrace⟩, fun old hold => ?_⟩
  obtain ⟨r, hr, rfl, hread⟩ := score_candidate_incumbent hg (retires_some hold)
  obtain ⟨hkey, hv, -⟩ := readable_iff.mp hread
  exact ⟨List.mem_map_of_mem (List.mem_filter.mpr ⟨hr, hread⟩), r, hr, rfl, hkey, hv⟩

theorem step_slotsOk (h : step env w l = some w') (hi : Wf env.deps.uuid w.db) (hs : SlotsOk w) :
    SlotsOk w' := by
  intro x hx s hsx
  have he := step_evolves h hi
  rcases step_slots h hx hsx with ⟨hy, ht, htr, hsy⟩ | _ | ⟨ht, htr, hf, hto⟩ | ⟨hy, ht, htr, hc, hg⟩
  · exact (ht ▸ htr ▸ hs _ hy _ hsy).evolves he
  · exact trivial
  · exact ⟨ht, htr, hf, hto⟩
  · obtain ⟨hct, hctr, -, -⟩ := ht ▸ htr ▸ hs _ hy _ hc
    exact (scored_ok hct hctr hg).evolves he

theorem slotsOk_init : SlotsOk env.init := fun _ hx => absurd hx List.not_mem_nil

/-- The decision an apply takes is in order. -/
theorem SlotsOk.next {d : ℕ} {x : Delivery} {seen : List AssertionId} {rest : List Slot}
    (hs : SlotsOk w) (hx : w.deliveries[d]? = some x)
    (hnext : next_apply x.slots = some (g, seen, rest)) :
    Slot.Ok w.db x.tenant x.trace (.scored g seen) :=
  hs x (List.mem_of_getElem? hx) _ (next_apply_mem hnext).1

/-- The decision of a landing apply is in order. -/
theorem SlotsOk.landing (hs : SlotsOk w) {p : Landing} (hp : landing env w l = some p) :
    Slot.Ok w.db p.tenant p.trace (.scored p.governed p.seen) := by
  obtain ⟨d, x, rest, -, hx, ht, htr, hnext, -⟩ := landing_some hp
  exact ht ▸ htr ▸ hs.next hx hnext

/-- A reachable world is in order. -/
theorem run_ok {ls : List Label} (h : run (step env) env.init ls = some w) :
    Wf env.deps.uuid w.db ∧ SlotsOk w :=
  inv_run (I := fun w => Wf env.deps.uuid w.db ∧ SlotsOk w)
    (fun _ _ _ hstep hw => ⟨step_wf hstep hw.1, step_slotsOk hstep hw.1 hw.2⟩) h ⟨.empty, slotsOk_init⟩

/-- A row no landing apply retires keeps its end. -/
theorem step_keeps_end (h : step env w l = some w') (hi : Wf env.deps.uuid w.db) {r : AssertionRow}
    (hr : r ∈ w.db.assertions) (hne : ∀ p ∈ landing env w l, retires p.governed ≠ some r.id) :
    ∃ r' ∈ w'.db.assertions, RowStep r r' ∧ r'.valid_to = r.valid_to := by
  have keep : r ∈ w'.db.assertions →
      ∃ r' ∈ w'.db.assertions, RowStep r r' ∧ r'.valid_to = r.valid_to :=
    fun hr' => ⟨r, hr', .refl r, rfl⟩
  cases step_effect hi h with
  | quiet hdb => exact keep (hdb ▸ hr)
  | refused _ _ _ => exact keep hr
  | landed hx hnext hl =>
      refine keep ((mem_landed hi hl).mpr (.kept hr ?_))
      exact hne _ (by rw [landing_apply hx hnext, if_pos hl]; rfl)
  | upserted hu => exact keep ((upsert_rows hu hi).1 r hr)
  | claimed _ => exact keep hr
  | wrote _ _ _ hdb => exact keep (hdb ▸ hr)
  | completed _ _ =>
      refine ⟨_, List.mem_map_of_mem hr, ?_, ?_⟩
      · split
        · exact .reveal r
        · exact .refl r
      · split <;> rfl

/-- Only what readers can see is superseded: an invisible row keeps its end. -/
theorem step_invisible (h : step env w l = some w') (hi : Wf env.deps.uuid w.db) (hs : SlotsOk w)
    {r : AssertionRow} (hr : r ∈ w.db.assertions) (hv : r.visible = false) :
    ∃ r' ∈ w'.db.assertions, RowStep r r' ∧ r'.valid_to = r.valid_to := by
  refine step_keeps_end h hi hr fun p hp hret => ?_
  obtain ⟨-, q, hq, hid, -, hqv⟩ := (hs.landing hp).2 r.id hret
  obtain rfl := hi.eq_of_id hq hr hid
  rw [hv] at hqv
  cases hqv

/-- Nothing is retracted, and what readers cannot see yet is live. -/
def Unspoiled (w : World G) : Prop :=
  ∀ r ∈ w.db.assertions, r.retracted_at = none ∧ (r.visible = false → r.valid_to = none)

/-- A new row is the one a landing apply inserts: invisible and live. -/
theorem step_new_row (h : step_governed env w l = some w') (hi : Wf env.deps.uuid w.db)
    {r : AssertionRow} (hr : r ∈ w'.db.assertions) (hnew : r.id ∉ w.db.ids) :
    r.visible = false ∧ r.valid_to = none ∧ r.retracted_at = none := by
  cases hp : landing env w l with
  | none =>
      obtain ⟨f, hrows, hf⟩ := (step_unlanded hp hi h).rows
      rw [hrows] at hr
      obtain ⟨q, hq, rfl⟩ := List.mem_map.mp hr
      have hqid : (f q).id = q.id := by rw [hf]
      exact absurd (hqid ▸ mem_ids hq) hnew
  | some p =>
      obtain ⟨-, -, -, -, -, -, -, -, hl⟩ := landing_some hp
      rw [(step_landing hp hi (step_of_governed h).1).1] at hr
      rcases (mem_landed hi hl).mp hr with ⟨hmem, -⟩ | - | ⟨hmem, -, -, -⟩
      · exact absurd (mem_ids hmem) hnew
      · exact ⟨rfl, rfl, rfl⟩
      · exact absurd (mem_ids hmem) hnew

theorem step_unspoiled (h : step_governed env w l = some w') (hi : Wf env.deps.uuid w.db)
    (hs : SlotsOk w) (hu : Unspoiled w) : Unspoiled w' := by
  have hstep := (step_of_governed h).1
  intro r' hr'
  by_cases hold : r'.id ∈ w.db.ids
  · obtain ⟨r, hr, hid⟩ := List.mem_map.mp hold
    have hrr := (step_evolves hstep hi).row_of_id (step_wf hstep hi) hr hr' hid.symm
    refine ⟨hrr.retraction.trans (hu r hr).1, fun hv' => ?_⟩
    have hv : r.visible = false := Bool.eq_false_iff.mpr fun hv => by
      rw [hrr.visible hv] at hv'
      cases hv'
    obtain ⟨q, hq, hrq, hend⟩ := step_invisible hstep hi hs hr hv
    obtain rfl := (step_wf hstep hi).eq_of_id hq hr' (hrq.id.trans hid)
    exact hend.trans ((hu r hr).2 hv)
  · obtain ⟨-, hend, hret⟩ := step_new_row h hi hr' hold
    exact ⟨hret, fun _ => hend⟩

/-! ### Where a pass comes from -/

/-- Where a pass comes from, a step later. -/
inductive PassOrigin (env : Env G) (w w' : World G) : Pass → Prop where
  | kept {y} (hy : y ∈ w.passes) : PassOrigin env w w' y
  | claimed {locked batch} (h : IsClaim env.relay locked batch w.db)
      (hdb : w'.db = CLAIM_OUTBOX batch w.db) : PassOrigin env w w' (.of (claimed_events batch w.db))
  | dropped {x y} (hx : x ∈ w.passes) (htodo : ∀ e ∈ y.todo, e ∈ x.todo) (hidle : y.stage = .idle) :
      PassOrigin env w w' y
  | loaded {x e rest a} (hx : x ∈ w.passes) (htodo : x.todo = e :: rest)
      (hload : load e w.db = .ok (some a)) : PassOrigin env w w' ⟨rest, .loaded e a⟩
  | wrote {x e a reply} (hx : x ∈ w.passes) (hstage : x.stage = .loaded e a)
      (hwrite : graph_write env.store reply a w.graph = (.ok (), w'.graph)) :
      PassOrigin env w w' ⟨x.todo, .written e⟩

theorem pass_set {p : ℕ} {x y : Pass} (hx : PassOrigin env w w' x) (hy : y ∈ w.passes.set p x) :
    PassOrigin env w w' y := by
  rcases List.mem_or_eq_of_mem_set hy with hy | rfl
  · exact .kept hy
  · exact hx

theorem step_passes (h : step env w l = some w') {y : Pass} (hy : y ∈ w'.passes) :
    PassOrigin env w w' y := by
  have same : w'.passes = w.passes → PassOrigin env w w' y := fun hp => .kept (hp ▸ hy)
  cases l with
  | deliver tenant ns trace cands =>
      simp only [step] at h
      split at h
      · obtain rfl := Option.some.inj h; exact same rfl
      · cases h
  | score d i reply =>
      simp only [step, Option.bind_eq_bind, Option.bind_eq_some_iff] at h
      obtain ⟨_, -, h⟩ := h
      split at h
      · obtain rfl := Option.some.inj h; exact same rfl
      · cases h
  | scoreFails d i =>
      simp only [step, Option.bind_eq_bind, Option.bind_eq_some_iff] at h
      obtain ⟨_, -, h⟩ := h
      split at h
      · obtain rfl := Option.some.inj h; exact same rfl
      · cases h
  | apply d clock =>
      simp only [step, step_apply, Option.bind_eq_bind, Option.bind_eq_some_iff] at h
      obtain ⟨_, -, ⟨_, _, _⟩, -, h⟩ := h
      simp only at h
      split at h <;> obtain rfl := Option.some.inj h <;> exact same rfl
  | applyFails d =>
      simp only [step, Option.bind_eq_bind, Option.bind_eq_some_iff] at h
      obtain ⟨_, -, ⟨_, _, _⟩, -, h⟩ := h
      obtain rfl := Option.some.inj h
      exact same rfl
  | abandon d =>
      simp only [step, Option.bind_eq_bind, Option.bind_eq_some_iff] at h
      obtain ⟨_, -, h⟩ := h
      obtain rfl := Option.some.inj h
      exact same rfl
  | upsert tenant now batch =>
      simp only [step] at h
      split at h <;> obtain rfl := Option.some.inj h <;> exact same rfl
  | claim locked batch =>
      simp only [step] at h
      split at h
      · next hc =>
          obtain rfl := Option.some.inj h
          rcases List.mem_append.mp hy with hy | hy
          · exact .kept hy
          · obtain rfl := List.mem_singleton.mp hy
            exact .claimed hc rfl
      · cases h
  | load p =>
      simp only [step, step_load, Option.bind_eq_bind, Option.bind_eq_some_iff] at h
      obtain ⟨x, hx, h⟩ := h
      have hmem : x ∈ w.passes := List.mem_of_getElem? hx
      split at h
      · next e rest _ htodo =>
          split at h <;> obtain rfl := Option.some.inj h
          · next a hload => exact pass_set (.loaded hmem htodo hload) hy
          · exact pass_set (.dropped hmem (fun e he => htodo ▸ List.mem_cons_of_mem _ he) rfl) hy
          · exact pass_set (.dropped hmem (fun e he => absurd he List.not_mem_nil) rfl) hy
      · cases h
  | write p reply =>
      simp only [step, step_write, Option.bind_eq_bind, Option.bind_eq_some_iff] at h
      obtain ⟨x, hx, h⟩ := h
      have hmem : x ∈ w.passes := List.mem_of_getElem? hx
      split at h
      · next e a hstage =>
          split at h <;> rename_i hwrite <;> obtain rfl := Option.some.inj h
          · exact pass_set (.wrote hmem hstage hwrite) hy
          · exact pass_set (.dropped (y := ⟨x.todo, .idle⟩) hmem (fun _ he => he) rfl) hy
          · exact pass_set (.dropped hmem (fun e he => absurd he List.not_mem_nil) rfl) hy
      · cases h
  | complete p t =>
      simp only [step, step_complete, Option.bind_eq_bind, Option.bind_eq_some_iff] at h
      obtain ⟨x, hx, h⟩ := h
      split at h
      · obtain rfl := Option.some.inj h
        exact pass_set
          (.dropped (y := ⟨x.todo, .idle⟩) (List.mem_of_getElem? hx) (fun _ he => he) rfl) hy
      · cases h
  | crash p =>
      simp only [step, Option.bind_eq_bind, Option.bind_eq_some_iff] at h
      obtain ⟨x, hx, h⟩ := h
      obtain rfl := Option.some.inj h
      exact pass_set (.dropped (List.mem_of_getElem? hx) (fun e he => absurd he List.not_mem_nil) rfl)
        hy

end GuardMem
