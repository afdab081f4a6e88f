import GuardMem.Clinical

/-! The outbox relay is safe under any interleaving of writes, passes, outages and crashes.

    Three transactions and a graph call carry an event from pending to visible, with nothing held in
    between. `Relayed` is the invariant that ties the four pieces together: the row, its event, its edge
    and whatever a pass has in hand. CORRECT: a visible row has its edge, visibility is dispatch, no
    event is lost or moved, and dispatching again changes nothing (`relay_safe`). -/

namespace GuardMem

open Lib.Table Lib.Transition

variable {G : Type} {env : Env G} {w w' : World G} {l : Label}

/-- The edge is the row's, and live as long as the row is. -/
structure AssertionRow.Shows (r : AssertionRow) (e : Edge) : Prop where
  assertion_id : e.assertion_id = r.id
  subject_id : e.subject_id = r.subject_id
  predicate : e.predicate = r.predicate
  object : ObjectValue.ofJson r.object_json = some e.object
  confidence : e.confidence.1 = r.confidence
  valid_from : e.valid_from = r.valid_from
  trace_id : e.trace_id = r.trace_id
  live : r.valid_to = none → e.valid_to = none

theorem AssertionRow.Shows.step {r r' : AssertionRow} {e : Edge} (h : r.Shows e) (hr : RowStep r r') :
    r'.Shows e := by
  have hlive : r'.valid_to = none → e.valid_to = none := fun hl =>
    h.live (by_contra fun hne => hne ((hr.retired hne).1 ▸ hl))
  obtain ⟨h1, h2, h3, h4, h5, h6, h7, -⟩ := h
  constructor <;> first | exact hlive | (rw [hr.facts]; assumption)

/-- Two edges of a row that agree on its end are one. -/
theorem AssertionRow.Shows.ext {r : AssertionRow} {e e' : Edge} (h : r.Shows e) (h' : r.Shows e')
    (hv : e.valid_to = e'.valid_to) : e = e' := by
  obtain ⟨a1, a2, a3, a4, a5, a6, a7, -⟩ := h
  obtain ⟨b1, b2, b3, b4, b5, b6, b7, -⟩ := h'
  obtain ⟨i, s, p, o, c, f, t, tr⟩ := e
  obtain ⟨i', s', p', o', c', f', t', tr'⟩ := e'
  dsimp only at *
  subst a1 a2 a3 a6 a7 b1 b2 b3 b6 b7 hv
  obtain rfl := Option.some.inj (a4.symm.trans b4)
  obtain rfl : c = c' := Subtype.ext (a5.trans b5.symm)
  rfl

/-- A loaded assertion's edge shows the row it was read from, at the row's end as it was. -/
theorem shows_of_hydrate {db : Db} {r : AssertionRow} {a : StoredAssertion}
    (h : hydrate db r = .ok a) :
    r.Shows (.of a) ∧ a.valid_to = r.valid_to ∧ a.tenant_id = r.tenant_id := by
  obtain ⟨hid, ht, hs, hp, ho, hc, hf, hv, htr⟩ := hydrate_ok h
  exact ⟨⟨hid, hs, hp, ho, hc, hf, htr, fun hl => hv.trans hl⟩, hv, ht⟩

/-- The event is a row of the outbox, and its assertion a row of its tenant. -/
def EventOk (db : Db) (e : PendingEvent) : Prop :=
  (∃ o ∈ db.outbox, o.id = e.outbox_id ∧ o.assertion_id = e.assertion_id) ∧
    ∃ r ∈ db.assertions, r.id = e.assertion_id ∧ r.tenant_id = e.tenant_id

/-- The graph holds an edge of the tenant's row. -/
def HasEdge (store : GraphStore G) (db : Db) (g : G) (tenant : TenantId) (aid : AssertionId) : Prop :=
  ∃ r ∈ db.assertions, r.id = aid ∧ r.tenant_id = tenant ∧
    ∃ e, (tenant, e) ∈ store.edges g ∧ r.Shows e

/-- What a pass has in hand is in order: an event it is about to complete has its edge. -/
structure PassOk (env : Env G) (w : World G) (y : Pass) : Prop where
  todo : ∀ e ∈ y.todo, EventOk w.db e
  loaded : ∀ e a, y.stage = .loaded e a → EventOk w.db e ∧
    ∃ r ∈ w.db.assertions, r.id = e.assertion_id ∧ r.tenant_id = e.tenant_id ∧
      a.tenant_id = r.tenant_id ∧ r.Shows (.of a)
  written : ∀ e, y.stage = .written e →
    EventOk w.db e ∧ HasEdge env.store w.db w.graph e.tenant_id e.assertion_id

/-- The relay's invariant. -/
structure Relayed (env : Env G) (w : World G) : Prop where
  passes : ∀ y ∈ w.passes, PassOk env w y
  edges : ∀ t e, (t, e) ∈ env.store.edges w.graph → ∃ r ∈ w.db.assertions, r.Shows e
  visible : ∀ r ∈ w.db.assertions, r.visible = true →
    HasEdge env.store w.db w.graph r.tenant_id r.id
  dispatched : ∀ r ∈ w.db.assertions, ∀ o ∈ w.db.outbox, o.assertion_id = r.id →
    (r.visible = true ↔ o.dispatched_at ≠ none)

theorem EventOk.evolves {db db' : Db} {e : PendingEvent} (h : EventOk db e) (he : db.Evolves db') :
    EventOk db' e := by
  obtain ⟨⟨o, ho, hid, ha⟩, r, hr, hrid, ht⟩ := h
  obtain ⟨o', ho', hoo⟩ := he.events o ho
  obtain ⟨r', hr', hrr⟩ := he.rows r hr
  refine ⟨⟨o', ho', hoo.id.trans hid, hoo.assertion_id.trans ha⟩, r', hr', hrr.id.trans hrid, ?_⟩
  rw [hrr.facts]
  exact ht

theorem HasEdge.evolves {store : GraphStore G} {db db' : Db} {g : G} {tenant : TenantId}
    {aid : AssertionId} (h : HasEdge store db g tenant aid) (he : db.Evolves db') :
    HasEdge store db' g tenant aid := by
  obtain ⟨r, hr, hid, ht, e, hmem, hs⟩ := h
  obtain ⟨r', hr', hrr⟩ := he.rows r hr
  refine ⟨r', hr', hrr.id.trans hid, ?_, e, hmem, hs.step hrr⟩
  rw [hrr.facts]
  exact ht

/-- Upserting a copy of a stored row takes no row's edge away. -/
theorem HasEdge.upsert {uuid : Uuid5} {store : GraphStore G} {db : Db} {g g' : G}
    {tenant : TenantId} {aid : AssertionId} (h : HasEdge store db g tenant aid) (hwf : Wf uuid db)
    {a : StoredAssertion} (ha : ∃ r ∈ db.assertions, a.tenant_id = r.tenant_id ∧ r.Shows (.of a))
    (hu : store.upsert_assertion a g = .ok g') : HasEdge store db g' tenant aid := by
  obtain ⟨r, hr, hid, ht, e, hmem, hs⟩ := h
  by_cases hne : e.assertion_id = a.assertion_id
  · -- the copy is of this very row, so the edge it writes is the row's too
    obtain ⟨q, hq, hqt, hqs⟩ := ha
    obtain rfl : q = r := hwf.eq_of_id hq hr
      (hqs.assertion_id.symm.trans (hne.symm.trans hs.assertion_id))
    exact ⟨q, hr, hid, ht, .of a, ht ▸ hqt ▸ store.upsert_self hu, hqs⟩
  · exact ⟨r, hr, hid, ht, e, store.upsert_keep hu hmem hne, hs⟩

/-- What a step does to the graph, if anything, is upsert a copy a pass had loaded. -/
theorem step_graph (h : step env w l = some w') (hi : Wf env.deps.uuid w.db) (hr : Relayed env w) :
    w'.graph = w.graph ∨ ∃ a, env.store.upsert_assertion a w.graph = .ok w'.graph ∧
      (∃ y ∈ w.passes, ∃ e, y.stage = .loaded e a) ∧
      ∃ r ∈ w.db.assertions, a.tenant_id = r.tenant_id ∧ r.Shows (.of a) := by
  cases step_effect hi h with
  | quiet _ hgraph => exact Or.inl hgraph
  | refused _ _ _ => exact Or.inl rfl
  | landed _ _ _ => exact Or.inl rfl
  | upserted _ => exact Or.inl rfl
  | claimed _ => exact Or.inl rfl
  | @wrote p reply x e a r g' _ hx hstage hwrite _ hgraph _ =>
      have hmem := List.mem_of_getElem? hx
      obtain ⟨-, q, hq, -, -, hqt, hqs⟩ := (hr.passes x hmem).loaded e a hstage
      rcases graph_write_cases hwrite with ⟨hsame, -⟩ | hu
      · exact Or.inl (hgraph.trans hsame)
      · exact Or.inr ⟨a, hgraph ▸ hu, ⟨x, hmem, e, hstage⟩, q, hq, hqt, hqs⟩
  | completed _ _ => exact Or.inl rfl

theorem step_hasEdge (h : step env w l = some w') (hi : Wf env.deps.uuid w.db) (hr : Relayed env w)
    {tenant : TenantId} {aid : AssertionId} (he : HasEdge env.store w.db w.graph tenant aid) :
    HasEdge env.store w'.db w'.graph tenant aid := by
  refine HasEdge.evolves ?_ (step_evolves h hi)
  rcases step_graph h hi hr with hsame | ⟨a, hu, -, ha⟩
  · exact hsame ▸ he
  · exact he.upsert hi ha hu

/-! ### Each part is kept -/

/-- A claimed event is in order. -/
theorem claimed_ok {batch : List String} {db : Db} {uuid : Uuid5} (hwf : Wf uuid db)
    {events : List PendingEvent} (h : claimed_events batch db = .ok events) {e : PendingEvent}
    (he : e ∈ events) : EventOk db e := by
  obtain ⟨o, ho, hid, ha, -, hpend⟩ := claimed_events_mem h he
  obtain ⟨-, r, hr, hrid, e', hpend', ht⟩ := hwf.events o ho
  obtain rfl : e' = e := Except.ok.inj (hpend'.symm.trans (pending_from_row_attempts.symm.trans hpend))
  exact ⟨⟨o, ho, hid, ha⟩, r, hr, hrid.trans ha, ht.symm⟩

theorem step_passesOk (h : step env w l = some w') (hi : Wf env.deps.uuid w.db)
    (hr : Relayed env w) : ∀ y ∈ w'.passes, PassOk env w' y := by
  intro y hy
  have he := step_evolves h hi
  have idle : ∀ {y : Pass}, (∀ e ∈ y.todo, EventOk w.db e) → y.stage = .idle → PassOk env w' y :=
    fun htodo hidle => ⟨fun e hmem => (htodo e hmem).evolves he,
      (fun e a hs => by rw [hidle] at hs; cases hs), (fun e hs => by rw [hidle] at hs; cases hs)⟩
  have loaded : ∀ {e a}, (EventOk w.db e ∧ ∃ r ∈ w.db.assertions, r.id = e.assertion_id ∧
      r.tenant_id = e.tenant_id ∧ a.tenant_id = r.tenant_id ∧ r.Shows (.of a)) →
      EventOk w'.db e ∧ ∃ r ∈ w'.db.assertions, r.id = e.assertion_id ∧
        r.tenant_id = e.tenant_id ∧ a.tenant_id = r.tenant_id ∧ r.Shows (.of a) := by
    rintro e a ⟨hev, r, hrow, hid, ht, hat, hs⟩
    obtain ⟨r', hr', hrr⟩ := he.rows r hrow
    have htt : r'.tenant_id = r.tenant_id := by rw [hrr.facts]
    exact ⟨hev.evolves he, r', hr', hrr.id.trans hid, htt.trans ht, hat.trans htt.symm, hs.step hrr⟩
  rcases step_passes h hy with hy | ⟨-, -⟩ | ⟨hx, htodo, hidle⟩ | ⟨hx, htodo, hload⟩ |
    ⟨hx, hstage, hwrite⟩
  · obtain ⟨htodo, hloaded, hwritten⟩ := hr.passes y hy
    refine ⟨fun e hmem => (htodo e hmem).evolves he, fun e a hs => loaded (hloaded e a hs),
      fun e hs => ?_⟩
    obtain ⟨hev, hedge⟩ := hwritten e hs
    exact ⟨hev.evolves he, step_hasEdge h hi hr hedge⟩
  · cases hev : claimed_events _ w.db with
    | error _ => exact idle (fun e hmem => absurd hmem List.not_mem_nil) rfl
    | ok events => exact idle (fun e hmem => claimed_ok hi hev hmem) rfl
  · exact idle (fun e hmem => (hr.passes _ hx).todo e (htodo e hmem)) hidle
  · have hall := (hr.passes _ hx).todo
    rw [htodo] at hall
    refine ⟨?_, ?_, ?_⟩
    · exact fun e hmem => (hall e (List.mem_cons_of_mem _ hmem)).evolves he
    · intro e a hs
      obtain ⟨rfl, rfl⟩ := Stage.loaded.inj hs
      obtain ⟨r, hrow, hid, ht, hhyd⟩ := load_some hload
      obtain ⟨hshow, -, hat⟩ := shows_of_hydrate hhyd
      exact loaded ⟨hall _ List.mem_cons_self, r, hrow, hid, ht, hat, hshow⟩
    · intro e hs
      cases hs
  · refine ⟨?_, ?_, ?_⟩
    · exact fun e hmem => ((hr.passes _ hx).todo e hmem).evolves he
    · intro e a hs
      cases hs
    · intro e hs
      obtain rfl := Stage.written.inj hs
      obtain ⟨hev, r, hrow, hid, ht, hat, hshow⟩ := (hr.passes _ hx).loaded _ _ hstage
      have hu := (graph_write_cases hwrite).resolve_left fun hne => hne.2 rfl
      refine ⟨hev.evolves he, HasEdge.evolves ⟨r, hrow, hid, ht, _, ?_, hshow⟩ he⟩
      exact ht ▸ hat ▸ env.store.upsert_self hu

/-- A write that reveals and dispatches nothing keeps the two in step. -/
theorem dispatched_keep {uuid : Uuid5} {db db' : Db} (hwf : Wf uuid db) (hwf' : Wf uuid db')
    (he : db.Evolves db')
    (hrows : ∀ r' ∈ db'.assertions, r'.visible = false ∨ ∃ r ∈ db.assertions, r.id = r'.id ∧
      r'.visible = r.visible)
    (hevents : ∀ o' ∈ db'.outbox, o'.dispatched_at = none ∨ ∃ o ∈ db.outbox,
      o.assertion_id = o'.assertion_id ∧ o'.dispatched_at = o.dispatched_at)
    (h : ∀ r ∈ db.assertions, ∀ o ∈ db.outbox, o.assertion_id = r.id →
      (r.visible = true ↔ o.dispatched_at ≠ none)) :
    ∀ r ∈ db'.assertions, ∀ o ∈ db'.outbox, o.assertion_id = r.id →
      (r.visible = true ↔ o.dispatched_at ≠ none) := by
  intro r' hr' o' ho' hid
  by_cases hold : r'.id ∈ db.ids
  · -- an old row: its event is old too, and neither has moved
    obtain ⟨r, hr, hrid⟩ := List.mem_map.mp hold
    obtain ⟨o, ho, hoa⟩ := hwf.queued r hr
    have hrr := he.row_of_id hwf' hr hr' hrid.symm
    have hoo := he.event_of_id hwf' ho ho' (hid.trans (hrid.symm.trans hoa.symm))
    have hv : r'.visible = r.visible := by
      rcases hrows r' hr' with hv | ⟨q, hq, hqid, hv⟩
      · cases hrv : r.visible with
        | false => exact hv
        | true => rw [hrr.visible hrv] at hv; cases hv
      · rw [hv, hwf.eq_of_id hq hr (hqid.trans hrid.symm)]
    have hd : o'.dispatched_at = o.dispatched_at := by
      rcases hevents o' ho' with hd | ⟨p, hp, hpa, hd⟩
      · by_cases hod : o.dispatched_at = none
        · rw [hd, hod]
        · exact hoo.dispatched hod
      · rw [hd, hwf.eq_of_event hp ho (hpa.trans hoo.assertion_id)]
    rw [hv, hd]
    exact h r hr o ho hoa
  · have hv : r'.visible = false := by
      rcases hrows r' hr' with hv | ⟨q, hq, hqid, -⟩
      · exact hv
      · exact absurd (hqid ▸ mem_ids hq) hold
    have hd : o'.dispatched_at = none := by
      rcases hevents o' ho' with hd | ⟨p, hp, hpa, -⟩
      · exact hd
      · obtain ⟨-, q, hq, hqid, -⟩ := hwf.events p hp
        exact absurd (hid ▸ hpa ▸ hqid ▸ mem_ids hq) hold
    simp [hv, hd]

/-- Completing an event in order reveals its row and closes its event, and no others. -/
theorem dispatched_complete {uuid : Uuid5} {db : Db} {e : PendingEvent} {t : Time}
    (hwf : Wf uuid db) (hev : EventOk db e)
    (h : ∀ r ∈ db.assertions, ∀ o ∈ db.outbox, o.assertion_id = r.id →
      (r.visible = true ↔ o.dispatched_at ≠ none)) :
    ∀ r ∈ (complete e t db).assertions, ∀ o ∈ (complete e t db).outbox, o.assertion_id = r.id →
      (r.visible = true ↔ o.dispatched_at ≠ none) := by
  obtain ⟨⟨q, hq, hqid, hqa⟩, s, hs, hsid, hst⟩ := hev
  intro r' hr' o' ho' hid
  obtain ⟨r, hr, rfl⟩ := mem_updateWhere.mp hr'
  obtain ⟨o, ho, rfl⟩ := mem_updateWhere.mp ho'
  have hrid : ∀ b : Bool, (if b then { r with visible := true } else r).id = r.id := by
    intro b; cases b <;> rfl
  have hoa : ∀ b : Bool, (if b then { o with dispatched_at := some t } else o).assertion_id =
      o.assertion_id := by intro b; cases b <;> rfl
  rw [hrid, hoa] at hid
  by_cases hmine : r.id = e.assertion_id
  · obtain rfl := hwf.eq_of_id hr hs (hmine.trans hsid.symm)
    obtain rfl := hwf.eq_of_event ho hq (hid.trans (hmine.trans hqa.symm))
    have hreveal : (r.id == e.assertion_id && r.tenant_id == e.tenant_id) = true := by
      simp [hsid, hst]
    rw [if_pos hreveal]
    simp only [true_iff]
    by_cases hd : o.dispatched_at = none
    · rw [if_pos (by simp [hqid, hd])]; simp
    · rw [if_neg (by simp [hd])]; exact hd
  · have hother : o.id ≠ e.outbox_id := fun heq =>
      hmine (hid ▸ hqa ▸ congrArg _ (eq_of_key OutboxRow.id hwf.outbox_nodup ho hq
        (heq.trans hqid.symm)))
    rw [if_neg (by simp [hmine]), if_neg (by simp [hother])]
    exact h r hr o ho hid

theorem step_dispatched (h : step env w l = some w') (hi : Wf env.deps.uuid w.db)
    (hr : Relayed env w) : ∀ r ∈ w'.db.assertions, ∀ o ∈ w'.db.outbox, o.assertion_id = r.id →
      (r.visible = true ↔ o.dispatched_at ≠ none) := by
  have hi' := step_wf h hi
  have he := step_evolves h hi
  have old : ∀ r ∈ w.db.assertions, r.visible = false ∨ ∃ q ∈ w.db.assertions, q.id = r.id ∧
      r.visible = q.visible := fun r hr => Or.inr ⟨r, hr, rfl, rfl⟩
  have oldev : ∀ o ∈ w.db.outbox, o.dispatched_at = none ∨ ∃ p ∈ w.db.outbox,
      p.assertion_id = o.assertion_id ∧ o.dispatched_at = p.dispatched_at :=
    fun o ho => Or.inr ⟨o, ho, rfl, rfl⟩
  cases step_effect hi h with
  | quiet hdb => exact hdb ▸ hr.dispatched
  | refused _ _ _ => exact hr.dispatched
  | wrote _ _ _ hdb => exact hdb ▸ hr.dispatched
  | landed _ _ hl =>
      refine dispatched_keep hi hi' he (fun r hmem => ?_) (fun o hmem => ?_) hr.dispatched
      · rcases (mem_landed hi hl).mp hmem with ⟨hold, -⟩ | - | ⟨hold, -, -, -⟩
        · exact old r hold
        · exact Or.inl rfl
        · exact Or.inr ⟨_, hold, rfl, rfl⟩
      · rcases mem_insertNew.mp hmem with hold | ⟨rfl, -⟩
        · exact oldev o hold
        · exact Or.inl rfl
  | upserted hu =>
      obtain ⟨-, hrows, -, hevents⟩ := upsert_rows hu hi
      refine dispatched_keep hi hi' he (fun r hmem => ?_) (fun o hmem => ?_) hr.dispatched
      · rcases hrows r hmem with hold | ⟨a, -, rfl⟩
        · exact old r hold
        · exact Or.inl rfl
      · rcases hevents o hmem with hold | ⟨a, -, rfl⟩
        · exact oldev o hold
        · exact Or.inl rfl
  | claimed _ =>
      refine dispatched_keep hi hi' he old (fun o hmem => ?_) hr.dispatched
      obtain ⟨p, hp, rfl⟩ := mem_updateWhere.mp hmem
      exact Or.inr ⟨p, hp, by split <;> rfl, by split <;> rfl⟩
  | completed hx hstage =>
      have hev := ((hr.passes _ (List.mem_of_getElem? hx)).written _ hstage).1
      exact dispatched_complete hi hev hr.dispatched

theorem step_visible (h : step env w l = some w') (hi : Wf env.deps.uuid w.db)
    (hr : Relayed env w) : ∀ r ∈ w'.db.assertions, r.visible = true →
      HasEdge env.store w'.db w'.graph r.tenant_id r.id := by
  -- a row that was visible had its edge, and keeps it
  have kept : ∀ r ∈ w'.db.assertions, (∃ q ∈ w.db.assertions, q.id = r.id ∧
      q.tenant_id = r.tenant_id ∧ q.visible = true) →
      HasEdge env.store w'.db w'.graph r.tenant_id r.id := by
    rintro r - ⟨q, hq, hid, ht, hv⟩
    exact ht ▸ hid ▸ step_hasEdge h hi hr (hr.visible q hq hv)
  intro r hmem hv
  cases hstep : step_effect hi h with
  | quiet hdb => exact kept r hmem ⟨r, hdb ▸ hmem, rfl, rfl, hv⟩
  | refused _ _ _ => exact kept r hmem ⟨r, hmem, rfl, rfl, hv⟩
  | wrote _ _ _ hdb => exact kept r hmem ⟨r, hdb ▸ hmem, rfl, rfl, hv⟩
  | claimed _ => exact kept r hmem ⟨r, hmem, rfl, rfl, hv⟩
  | landed _ _ hl =>
      rcases (mem_landed hi hl).mp hmem with ⟨hold, -⟩ | - | ⟨hold, -, -, -⟩
      · exact kept r hmem ⟨r, hold, rfl, rfl, hv⟩
      · cases hv
      · exact kept _ hmem ⟨_, hold, rfl, rfl, hv⟩
  | upserted hu =>
      rcases (upsert_rows hu hi).2.1 r hmem with hold | ⟨a, -, rfl⟩
      · exact kept r hmem ⟨r, hold, rfl, rfl, hv⟩
      · cases hv
  | @completed p t x e hx hstage =>
      obtain ⟨hev, hedge⟩ := (hr.passes _ (List.mem_of_getElem? hx)).written _ hstage
      obtain ⟨q, hq, rfl⟩ := mem_updateWhere.mp hmem
      by_cases hmine : (q.id == e.assertion_id && q.tenant_id == e.tenant_id) = true
      · rw [if_pos hmine]
        simp only [Bool.and_eq_true, beq_iff_eq] at hmine
        have := step_hasEdge h hi hr hedge
        rw [← hmine.1, ← hmine.2] at this
        exact this
      · rw [if_neg hmine] at hv ⊢
        exact kept q (mem_updateWhere.mpr ⟨q, hq, if_neg hmine⟩) ⟨q, hq, rfl, rfl, hv⟩

theorem step_edges (h : step env w l = some w') (hi : Wf env.deps.uuid w.db) (hr : Relayed env w) :
    ∀ t e, (t, e) ∈ env.store.edges w'.graph → ∃ r ∈ w'.db.assertions, r.Shows e := by
  have he := step_evolves h hi
  have kept : ∀ e, (∃ r ∈ w.db.assertions, r.Shows e) → ∃ r ∈ w'.db.assertions, r.Shows e := by
    rintro e ⟨r, hrow, hs⟩
    obtain ⟨r', hr', hrr⟩ := he.rows r hrow
    exact ⟨r', hr', hs.step hrr⟩
  intro t e hmem
  rcases step_graph h hi hr with hsame | ⟨a, hu, -, r, hrow, -, hs⟩
  · exact kept e (hr.edges t e (hsame ▸ hmem))
  · rcases env.store.upsert_only hu hmem with rfl | ⟨hold, -⟩
    · exact kept _ ⟨r, hrow, hs⟩
    · exact kept e (hr.edges t e hold)

theorem step_relayed (h : step env w l = some w') (hi : Wf env.deps.uuid w.db) (hr : Relayed env w) :
    Relayed env w' :=
  ⟨step_passesOk h hi hr, step_edges h hi hr, step_visible h hi hr, step_dispatched h hi hr⟩

theorem relayed_init : Relayed env env.init := by
  refine ⟨fun _ hy => absurd hy List.not_mem_nil, fun t e he => ?_,
    fun _ hr => absurd hr List.not_mem_nil, fun _ hr => absurd hr List.not_mem_nil⟩
  have : (t, e) ∈ env.store.edges env.store.empty := he
  rw [env.store.edges_empty] at this
  exact absurd this List.not_mem_nil

/-! ### Copies and edges of one assertion -/

/-- Every copy of the assertion a pass has in hand, and every edge of it, ends then. -/
structure Current (env : Env G) (w : World G) (aid : AssertionId) (until' : Option Time) : Prop where
  copies : ∀ y ∈ w.passes, ∀ e a, y.stage = .loaded e a → a.assertion_id = aid → a.valid_to = until'
  edges : ∀ t e, (t, e) ∈ env.store.edges w.graph → e.assertion_id = aid → e.valid_to = until'

/-- Nothing has been read of an assertion that is not stored. -/
theorem Current.of_new (hr : Relayed env w) {aid : AssertionId} {until' : Option Time}
    (h : aid ∉ w.db.ids) : Current env w aid until' := by
  constructor
  · rintro y hy e a hs rfl
    obtain ⟨-, r, hrow, -, -, -, hshow⟩ := (hr.passes y hy).loaded e a hs
    have hid : a.assertion_id = r.id := hshow.assertion_id
    exact absurd (hid ▸ mem_ids hrow) h
  · rintro t e hmem rfl
    obtain ⟨r, hrow, hshow⟩ := hr.edges t e hmem
    exact absurd (hshow.assertion_id ▸ mem_ids hrow) h

/-- While the row has that end, what is read of it and written from it has it too. -/
theorem step_current (h : step env w l = some w') (hi : Wf env.deps.uuid w.db) (hr : Relayed env w)
    {aid : AssertionId} {until' : Option Time}
    (hrow : ∀ r ∈ w.db.assertions, r.id = aid → r.valid_to = until')
    (hc : Current env w aid until') : Current env w' aid until' := by
  constructor
  · intro y hy e a hs ha
    rcases step_passes h hy with hy | ⟨-, -⟩ | ⟨-, -, hidle⟩ | ⟨-, -, hload⟩ | ⟨-, -, -⟩
    · exact hc.copies y hy e a hs ha
    · unfold Pass.of at hs
      split at hs <;> cases hs
    · rw [hidle] at hs
      cases hs
    · obtain ⟨-, rfl⟩ := Stage.loaded.inj hs
      obtain ⟨q, hq, -, -, hhyd⟩ := load_some hload
      obtain ⟨hshow, hv, -⟩ := shows_of_hydrate hhyd
      exact hv.trans (hrow q hq (hshow.assertion_id.symm.trans ha))
    · cases hs
  · intro t e hmem ha
    rcases step_graph h hi hr with hsame | ⟨a, hu, ⟨y, hy, e', hs⟩, -⟩
    · exact hc.edges t e (hsame ▸ hmem) ha
    · rcases env.store.upsert_only hu hmem with rfl | ⟨hold, -⟩
      · exact hc.copies y hy e' a hs ha
      · exact hc.edges t e hold ha

/-- A row that is to end as it does now ends so in between. -/
theorem RowStep.between {r s t : AssertionRow} (h : RowStep r s) (k : RowStep s t)
    (hend : t.valid_to = r.valid_to) : s.valid_to = r.valid_to := by
  by_cases hr : r.valid_to = none
  · rw [hr] at hend ⊢
    exact by_contra fun hs => hs ((k.retired hs).1 ▸ hend)
  · exact (h.retired hr).1

/-- A row that ends the same at both ends of a run: its copies and edges do too. -/
theorem run_current {ls : List Label} : ∀ {w : World G} {r r' : AssertionRow},
    run (step env) w ls = some w' → Wf env.deps.uuid w.db → Relayed env w → r ∈ w.db.assertions →
    r' ∈ w'.db.assertions → r'.id = r.id → r'.valid_to = r.valid_to →
    Current env w r.id r.valid_to → Current env w' r.id r.valid_to := by
  induction ls with
  | nil =>
      intro w r r' h _ _ _ _ _ _ hc
      obtain rfl := Option.some.inj h
      exact hc
  | cons l ls ih =>
      intro w r r' h hi hr hrow hrow' hid hend hc
      obtain ⟨u, hu, hrest⟩ := run_cons.mp h
      have hui := step_wf hu hi
      have hwi := inv_run (I := fun w => Wf env.deps.uuid w.db) (fun _ _ _ => step_wf) hrest hui
      obtain ⟨s, hs, hrs⟩ := (step_evolves hu hi).rows r hrow
      have hid' := hid.trans hrs.id.symm
      have hsr' : RowStep s r' := (run_evolves hrest hui).row_of_id hwi hs hrow' hid'
      have hsend := hrs.between hsr' hend
      have hcur := step_current hu hi hr
        (fun q hq hqid => congrArg _ (hi.eq_of_id hq hrow hqid)) hc
      rw [← hrs.id, ← hsend] at hcur ⊢
      exact ih hrest hui (step_relayed hu hi hr) hs hrow' hid' (hend.trans hsend.symm) hcur

/-- An invisible row has never been superseded, so no older copy of it is about. -/
def Hidden (env : Env G) (w : World G) : Prop :=
  ∀ r ∈ w.db.assertions, r.visible = false → Current env w r.id r.valid_to

theorem step_hidden (h : step env w l = some w') (hi : Wf env.deps.uuid w.db) (hs : SlotsOk w)
    (hr : Relayed env w) (hh : Hidden env w) : Hidden env w' := by
  intro r' hr' hv'
  have hi' := step_wf h hi
  by_cases hold : r'.id ∈ w.db.ids
  · obtain ⟨r, hrow, hid⟩ := List.mem_map.mp hold
    have hrr := (step_evolves h hi).row_of_id hi' hrow hr' hid.symm
    have hv : r.visible = false := Bool.eq_false_iff.mpr fun hv => by
      rw [hrr.visible hv] at hv'
      cases hv'
    obtain ⟨q, hq, hrq, hend⟩ := step_invisible h hi hs hrow hv
    obtain rfl := hi'.eq_of_id hq hr' (hrq.id.trans hid)
    rw [hend, ← hid]
    exact step_current h hi hr (fun s hs hsid => congrArg _ (hi.eq_of_id hs hrow hsid))
      (hh r hrow hv)
  · exact step_current h hi hr (fun s hs hsid => absurd (hsid ▸ mem_ids hs) hold)
      (.of_new hr hold)

/-- A reachable world is in order, its relay included. -/
theorem run_relayed {ls : List Label} (h : run (step env) env.init ls = some w) :
    Wf env.deps.uuid w.db ∧ Relayed env w ∧ Hidden env w := by
  have hinv := inv_run
    (I := fun w => (Wf env.deps.uuid w.db ∧ SlotsOk w) ∧ Relayed env w ∧ Hidden env w)
    (fun _ _ _ hstep ⟨⟨hi, hs⟩, hr, hh⟩ => ⟨⟨step_wf hstep hi, step_slotsOk hstep hi hs⟩,
      step_relayed hstep hi hr, step_hidden hstep hi hs hr hh⟩) h
    ⟨⟨.empty, slotsOk_init⟩, relayed_init, fun _ hr => absurd hr List.not_mem_nil⟩
  exact ⟨hinv.1.1, hinv.2⟩

/-! ### Dispatching again -/

/-- The tables and the graph already hold all that dispatching the event would write. -/
structure Settled (store : GraphStore G) (db : Db) (g : G) (e : PendingEvent) : Prop where
  row : ∃ r ∈ db.assertions, r.id = e.assertion_id ∧ r.tenant_id = e.tenant_id ∧
    r.visible = true ∧ ∃ edge, (e.tenant_id, edge) ∈ store.edges g ∧ r.Shows edge ∧
      edge.valid_to = r.valid_to
  event : ∃ o ∈ db.outbox, o.id = e.outbox_id ∧ o.dispatched_at ≠ none

section Settled

variable {store : GraphStore G} {uuid : Uuid5} {db : Db} {g : G} {e : PendingEvent}

theorem Settled.complete (h : Settled store db g e) (hwf : Wf uuid db) (t : Time) :
    complete e t db = db := by
  obtain ⟨⟨r, hr, hid, ht, hv, -⟩, o, ho, hoid, hd⟩ := h
  have hreveal : REVEAL_ASSERTION e.tenant_id e.assertion_id db = db := by
    have := updateWhere_id (t := db.assertions)
      (p := fun r => r.id == e.assertion_id && r.tenant_id == e.tenant_id)
      (f := fun r => { r with visible := true }) fun q hq hp => by
        simp only [Bool.and_eq_true, beq_iff_eq] at hp
        obtain rfl := hwf.eq_of_id hq hr (hp.1.trans hid.symm)
        rw [← hv]
    rw [REVEAL_ASSERTION, this]
  have hmark : MARK_DISPATCHED t e.outbox_id db = db := by
    have := updateWhere_false (t := db.outbox)
      (p := fun o => o.id == e.outbox_id && o.dispatched_at.isNone)
      (f := fun o => { o with dispatched_at := some t }) fun q hq => by
        by_cases hqid : q.id = e.outbox_id
        · obtain rfl := eq_of_key OutboxRow.id hwf.outbox_nodup hq ho (hqid.trans hoid.symm)
          simp [Option.isSome_iff_ne_none, hd]
        · simp [hqid]
    rw [MARK_DISPATCHED, this]
  rw [GuardMem.complete, hreveal, hmark]

/-- Writing a copy of the row as it is changes nothing, however the call goes. -/
theorem Settled.write (h : Settled store db g e) (hwf : Wf uuid db) {a : StoredAssertion}
    {r : AssertionRow} (hr : r ∈ db.assertions) (hid : r.id = e.assertion_id)
    (ha : a.tenant_id = r.tenant_id) (hs : r.Shows (.of a)) (hv : a.valid_to = r.valid_to)
    (reply : GraphReply) : (graph_write store reply a g).2 = g := by
  obtain ⟨⟨q, hq, hqid, ht, -, edge, hedge, hshow, hqv⟩, -⟩ := h
  obtain rfl := hwf.eq_of_id hq hr (hqid.trans hid.symm)
  obtain rfl : edge = .of a := hshow.ext hs (hqv.trans hv.symm)
  have hagain := store.upsert_again (ha.trans ht ▸ hedge)
  cases hw : graph_write store reply a g with
  | mk x g' =>
      rcases graph_write_cases hw with ⟨rfl, -⟩ | hu
      · rfl
      · exact (Except.ok.inj (hagain.symm.trans hu)).symm

theorem Settled.dispatch (h : Settled store db g e) (hwf : Wf uuid db) (reply : GraphReply)
    (t : Time) : (dispatch store reply t e db g).2 = (db, g) := by
  unfold GuardMem.dispatch
  split
  · rfl
  · rfl
  · next a hload =>
      obtain ⟨r, hr, hid, ht, hhyd⟩ := load_some hload
      obtain ⟨hs, hv, hat⟩ := shows_of_hydrate hhyd
      have hwrite := h.write hwf hr hid hat hs hv reply
      split <;> rename_i hw <;> rw [hw] at hwrite <;> obtain rfl := hwrite
      · simp only [h.complete hwf t]
      · rfl
      · rfl

/-- A dispatch that finished leaves its event settled. -/
theorem settled_of_dispatch {reply : GraphReply} {t : Time} {db' : Db} {g' : G} (hwf : Wf uuid db)
    (hev : EventOk db e) (h : dispatch store reply t e db g = (.ok true, db', g')) :
    Wf uuid db' ∧ Settled store db' g' e := by
  unfold GuardMem.dispatch at h
  split at h
  · cases h
  · cases h
  · next a hload =>
      obtain ⟨r, hr, hid, ht, hhyd⟩ := load_some hload
      obtain ⟨hs, hv, hat⟩ := shows_of_hydrate hhyd
      split at h
      · next g'' hw =>
          obtain ⟨rfl, rfl⟩ := by simpa using h
          refine ⟨hwf.complete, ?_, ?_⟩
          · have hu := (graph_write_cases hw).resolve_left fun hne => hne.2 rfl
            refine ⟨{ r with visible := true }, mem_updateWhere.mpr ⟨r, hr, ?_⟩, hid, ht, rfl, .of a,
              ?_, hs.step (.reveal r), hv⟩
            · rw [if_pos (by simp [hid, ht])]
            · exact ht ▸ hat ▸ store.upsert_self hu
          · obtain ⟨⟨o, ho, hoid, -⟩, -⟩ := hev
            refine ⟨_, mem_updateWhere.mpr ⟨o, ho, rfl⟩, ?_, ?_⟩
            · split <;> exact hoid
            · split
              · simp
              · next hne => simpa [hoid] using hne
      · cases h
      · cases h

end Settled

/-- Dispatching the assertion's event changes nothing now, in one go or in the steps of a pass. -/
structure NoOp (env : Env G) (w : World G) (aid : AssertionId) : Prop where
  dispatch : ∀ e, EventOk w.db e → e.assertion_id = aid → ∀ reply t,
    (dispatch env.store reply t e w.db w.graph).2 = (w.db, w.graph)
  write : ∀ p y e a reply w', w.passes[p]? = some y → y.stage = .loaded e a →
    e.assertion_id = aid → step env w (.write p reply) = some w' →
    w'.db = w.db ∧ w'.graph = w.graph
  complete : ∀ p y e t w', w.passes[p]? = some y → y.stage = .written e →
    e.assertion_id = aid → step env w (.complete p t) = some w' →
    w'.db = w.db ∧ w'.graph = w.graph

/-- The event of a visible row whose copies and edges are all current is settled. -/
theorem Relayed.settled (hr : Relayed env w) (hi : Wf env.deps.uuid w.db) {r : AssertionRow}
    (hrow : r ∈ w.db.assertions) (hv : r.visible = true) (hc : Current env w r.id r.valid_to)
    {e : PendingEvent} (hev : EventOk w.db e) (he : e.assertion_id = r.id) :
    Settled env.store w.db w.graph e := by
  obtain ⟨⟨o, ho, hoid, hoa⟩, q, hq, hqid, hqt⟩ := hev
  obtain rfl := hi.eq_of_id hq hrow (hqid.trans he)
  obtain ⟨s, hs, hsid, hst, edge, hedge, hshow⟩ := hr.visible q hq hv
  obtain rfl := hi.eq_of_id hs hq hsid
  refine ⟨⟨s, hs, hqid, hqt, hv, edge, hqt ▸ hedge, hshow, ?_⟩, o, ho, hoid, ?_⟩
  · exact hc.edges _ edge hedge hshow.assertion_id
  · exact (hr.dispatched s hs o ho (hoa.trans he)).mp hv

theorem Relayed.noOp (hr : Relayed env w) (hi : Wf env.deps.uuid w.db) {r : AssertionRow}
    (hrow : r ∈ w.db.assertions) (hv : r.visible = true) (hc : Current env w r.id r.valid_to) :
    NoOp env w r.id := by
  have settled : ∀ {e}, EventOk w.db e → e.assertion_id = r.id → Settled env.store w.db w.graph e :=
    hr.settled hi hrow hv hc
  refine ⟨fun e hev he reply t => (settled hev he).dispatch hi reply t, ?_, ?_⟩
  · intro p y e a reply w' hy hstage he h
    have hymem := List.mem_of_getElem? hy
    obtain ⟨hev, q, hq, hqid, -, hqt, hqs⟩ := (hr.passes y hymem).loaded e a hstage
    obtain rfl := hi.eq_of_id hq hrow (hqid.trans he)
    have hcopy := hc.copies y hymem e a hstage hqs.assertion_id
    have hwrite := (settled hev he).write hi hq hqid hqt hqs hcopy reply
    simp only [step, step_write, hy, hstage, Option.bind_eq_bind, Option.bind_some] at h
    split at h <;> rename_i hw <;> rw [hw] at hwrite <;> obtain rfl := Option.some.inj h <;>
      exact ⟨rfl, hwrite⟩
  · intro p y e t w' hy hstage he h
    have hev := ((hr.passes y (List.mem_of_getElem? hy)).written e hstage).1
    simp only [step, step_complete, hy, hstage, Option.bind_eq_bind, Option.bind_some] at h
    obtain rfl := Option.some.inj h
    exact ⟨(settled hev he).complete hi t, rfl⟩

/-- The one event of a row. -/
theorem Wf.one_event {uuid : Uuid5} {db : Db} (h : Wf uuid db) {r : AssertionRow}
    (hr : r ∈ db.assertions) :
    ∃ o, (db.outbox.filter fun o => o.assertion_id == r.id) = [o] := by
  obtain ⟨o, ho, hoa⟩ := h.queued r hr
  refine ⟨o, List.perm_singleton.mp ((List.perm_ext_iff_of_nodup ?_ (List.nodup_singleton o)).mpr ?_)⟩
  · exact h.outbox_nodup.of_map.filter _
  · intro p
    simp only [List.mem_filter, beq_iff_eq, List.mem_singleton]
    constructor
    · rintro ⟨hp, hpa⟩
      exact h.eq_of_event hp ho (hpa.trans hoa.symm)
    · rintro rfl
      exact ⟨ho, hoa⟩

/-- CORRECT: in every reachable state a visible row has its edge, a row has one event and is visible
    exactly when that is dispatched, at a time no run moves. Dispatching an event again is a no-op:
    at once, and in any later state in which the row still ends as it did before its first. -/
theorem relay_safe (env : Env G) {ls : List Label} {w : World G}
    (h : run (step env) env.init ls = some w) :
    (∀ r ∈ w.db.assertions, r.visible = true →
      ∃ e, (r.tenant_id, e) ∈ env.store.edges w.graph ∧ r.Shows e) ∧
    (∀ r ∈ w.db.assertions, ∃ o, (w.db.outbox.filter fun o => o.assertion_id == r.id) = [o] ∧
      (r.visible = true ↔ o.dispatched_at ≠ none)) ∧
    (∀ o ∈ w.db.outbox, o.dispatched_at ≠ none → ∀ ms w', run (step env) w ms = some w' →
      ∃ o' ∈ w'.db.outbox, o'.id = o.id ∧ o'.dispatched_at = o.dispatched_at) ∧
    (∀ e, EventOk w.db e → ∀ reply t db g,
      dispatch env.store reply t e w.db w.graph = (.ok true, db, g) →
      ∀ reply' t', (dispatch env.store reply' t' e db g).2 = (db, g)) ∧
    (∀ r ∈ w.db.assertions, r.visible = false → ∀ ms w', run (step env) w ms = some w' →
      ∀ r' ∈ w'.db.assertions, r'.id = r.id → r'.visible = true → r'.valid_to = r.valid_to →
      NoOp env w' r.id) := by
  obtain ⟨hi, hr, hh⟩ := run_relayed h
  refine ⟨?_, ?_, ?_, ?_, ?_⟩
  · intro r hrow hv
    obtain ⟨q, hq, hid, -, e, hedge, hshow⟩ := hr.visible r hrow hv
    obtain rfl := hi.eq_of_id hq hrow hid
    exact ⟨e, hedge, hshow⟩
  · intro r hrow
    obtain ⟨o, ho⟩ := hi.one_event hrow
    obtain ⟨homem, hoa⟩ := List.mem_filter.mp (ho ▸ List.mem_cons_self : o ∈ w.db.outbox.filter _)
    exact ⟨o, ho, hr.dispatched r hrow o homem (by simpa using hoa)⟩
  · intro o ho hd ms w' hrun
    obtain ⟨o', ho', hstep⟩ := (run_evolves hrun hi).events o ho
    exact ⟨o', ho', hstep.id, hstep.dispatched hd⟩
  · intro e hev reply t db g hd reply' t'
    obtain ⟨hi', hsettled⟩ := settled_of_dispatch hi hev hd
    exact hsettled.dispatch hi' reply' t'
  · intro r hrow hv ms w' hrun r' hrow' hid hv' hend
    obtain ⟨hi', hr', -⟩ := run_relayed (run_append.mpr ⟨w, h, hrun⟩)
    have hc := run_current hrun hi hr hrow hrow' hid hend (hh r hrow hv)
    rw [← hid, ← hend] at hc
    rw [← hid]
    exact hr'.noOp hi' hrow' hv' hc

section Clinical

open GuardMem.Clinical

/-- Two passes hold one event: the first loses the graph after its write has landed, the second
    finishes, and the first dies over an event claimed later. -/
def two_passes : List Label :=
  [proposal "t" [language "t" "c_1" "French" 10], scored 0 0, applied 0 20,
    .claim [] [outbox_id uuid (row_id "t" "c_1")], .claim [] [outbox_id uuid (row_id "t" "c_1")],
    .load 0, .load 1, .write 0 (.unavailable true), .write 1 .answers, .complete 1 30, .crash 0]

theorem two_passes_safe : ∃ w r e, run (step Clinical.env) Clinical.env.init two_passes = some w ∧
    r ∈ w.db.assertions ∧ r.visible = true ∧
      (r.tenant_id, e) ∈ Clinical.env.store.edges w.graph ∧ r.Shows e := by
  have hrun : ∃ w ∈ run (step Clinical.env) Clinical.env.init two_passes,
      ∃ r ∈ w.db.assertions, r.visible = true := by
    decide +kernel
  obtain ⟨w, hw, r, hr, hv⟩ := hrun
  obtain ⟨e, he⟩ := (relay_safe Clinical.env hw).1 r hr hv
  exact ⟨w, r, e, hw, hr, hv, he⟩

end Clinical

end GuardMem
