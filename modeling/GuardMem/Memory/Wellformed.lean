import GuardMem.Memory.Store

/-! What every committed database satisfies.

    `Wf` collects the keys, the foreign keys, the CHECKs and the pairing of each assertion with its
    citations and its one outbox event. CORRECT: a batch written by `write_in` keeps it
    (`Wf.write_in`), citations and events included, so the deferred trigger never fires. -/

namespace GuardMem

open Lib.Table

/-- The assertion table's own share, which holds between the statements of a batch too. -/
structure RowsOk (uuid : Uuid5) (db : Db) : Prop where
  ids_nodup : db.ids.Nodup
  ids_valid : ∀ r ∈ db.assertions, uuid.valid r.id = true
  checked : ∀ r ∈ db.assertions, r.violated = none
  linked : ∀ r ∈ db.assertions, ∀ s ∈ r.superseded_by, s ∈ db.ids

/-- A database the write path can have committed. -/
structure Wf (uuid : Uuid5) (db : Db) : Prop extends RowsOk uuid db where
  citations_nodup : (db.provenance.map ProvenanceRow.id).Nodup
  cited : ∀ p ∈ db.provenance,
    p.assertion_id ∈ db.ids ∧ ∃ c, p = citation_params uuid p.assertion_id c
  sourced : ∀ r ∈ db.assertions, ∃ p ∈ db.provenance, p.assertion_id = r.id
  outbox_nodup : (db.outbox.map OutboxRow.id).Nodup
  events : ∀ o ∈ db.outbox, o.id = outbox_id uuid o.assertion_id ∧
    ∃ r ∈ db.assertions, r.id = o.assertion_id ∧
      ∃ e, pending_from_row o = .ok e ∧ e.tenant_id = r.tenant_id
  queued : ∀ r ∈ db.assertions, ∃ o ∈ db.outbox, o.assertion_id = r.id

variable {deps : Deps} {uuid : Uuid5} {tenant : TenantId} {db db' : Db}

theorem mem_ids {r : AssertionRow} (h : r ∈ db.assertions) : r.id ∈ db.ids := List.mem_map_of_mem h

theorem Wf.empty : Wf uuid .empty := by
  refine { ids_nodup := ?_, ids_valid := ?_, checked := ?_, linked := ?_, citations_nodup := ?_,
           cited := ?_, sourced := ?_, outbox_nodup := ?_, events := ?_, queued := ?_ } <;>
    simp [Db.empty, Db.ids]

/-- The audit chain is no part of it. -/
theorem Wf.of_tables (h : Wf uuid db) (ha : db'.assertions = db.assertions)
    (hp : db'.provenance = db.provenance) (ho : db'.outbox = db.outbox) : Wf uuid db' := by
  obtain ⟨a, p, o, l⟩ := db'
  simp only at ha hp ho
  subst ha hp ho
  exact { h with ids_nodup := h.ids_nodup }

/-- The primary key tells rows apart. -/
theorem Wf.eq_of_id (h : Wf uuid db) {r s : AssertionRow} (hr : r ∈ db.assertions)
    (hs : s ∈ db.assertions) (hid : r.id = s.id) : r = s :=
  eq_of_key AssertionRow.id h.ids_nodup hr hs hid

theorem Wf.eq_of_event (h : Wf uuid db) {o o' : OutboxRow} (ho : o ∈ db.outbox)
    (ho' : o' ∈ db.outbox) (hid : o.assertion_id = o'.assertion_id) : o = o' :=
  eq_of_key OutboxRow.id h.outbox_nodup ho ho'
    (by rw [(h.events o ho).1, (h.events o' ho').1, hid])

/-! ### Writing a batch -/

/-- What each statement of a batch establishes and no later one undoes, the batch establishes. -/
theorem executemany_each {α : Type} {statement : α → Db → Except Exc Db} {P : α → Db → Prop} :
    ∀ {xs : List α} {db db' : Db},
      (∀ x ∈ xs, ∀ d d', statement x d = .ok d' → P x d') →
      (∀ x, ∀ y ∈ xs, ∀ d d', statement y d = .ok d' → P x d → P x d') →
      executemany statement xs db = .ok db' → ∀ x ∈ xs, P x db'
  | [], _, _, _, _, _, _, hx => absurd hx List.not_mem_nil
  | y :: ys, db, db', hest, hkeep, h, x, hx => by
      simp only [executemany, bind_ok] at h
      obtain ⟨d, hd, hrest⟩ := h
      have hest' : ∀ z ∈ ys, ∀ d d', statement z d = .ok d' → P z d' :=
        fun z hz => hest z (List.mem_cons_of_mem _ hz)
      have hkeep' : ∀ x, ∀ z ∈ ys, ∀ d d', statement z d = .ok d' → P x d → P x d' :=
        fun x z hz => hkeep x z (List.mem_cons_of_mem _ hz)
      rcases List.mem_cons.mp hx with rfl | htail
      · exact executemany_inv (hkeep' x) hrest (hest x List.mem_cons_self db d hd)
      · exact executemany_each hest' hkeep' hrest x htail

theorem RowsOk.insert {row : AssertionRow} (h : INSERT_ASSERTION uuid tenant row db = .ok db')
    (hi : RowsOk uuid db) : RowsOk uuid db' := by
  obtain ⟨hval, hviol, -, hfk, rfl⟩ := INSERT_ASSERTION_ok.mp h
  refine ⟨nodup_insertNew hi.ids_nodup, ?_, ?_, ?_⟩
  · intro r hr
    rcases mem_insertNew.mp hr with hr | ⟨rfl, -⟩
    · exact hi.ids_valid r hr
    · exact hval
  · intro r hr
    rcases mem_insertNew.mp hr with hr | ⟨rfl, -⟩
    · exact hi.checked r hr
    · exact hviol
  · intro r hr s hs
    rcases mem_insertNew.mp hr with hr | ⟨rfl, hnew⟩
    · obtain ⟨q, hq, rfl⟩ := List.mem_map.mp (hi.linked r hr s hs)
      exact List.mem_map_of_mem (mem_insertNew_of_mem hq)
    · exact (hfk.resolve_left hnew) s hs

/-- The first statement of a batch writes rows of the batch and keeps those there were. -/
theorem write_rows {rows : List AssertionRow}
    (h : executemany (INSERT_ASSERTION uuid tenant) rows db = .ok db') (hi : RowsOk uuid db) :
    RowsOk uuid db' ∧ db'.provenance = db.provenance ∧ db'.outbox = db.outbox ∧
      (∀ r ∈ db.assertions, r ∈ db'.assertions) ∧
      (∀ r ∈ db'.assertions, r ∈ db.assertions ∨ r ∈ rows) ∧
      ∀ row ∈ rows, row.id ∈ db'.ids := by
  have hkeep := executemany_inv (I := fun d => RowsOk uuid d ∧ d.provenance = db.provenance ∧
    d.outbox = db.outbox ∧ (∀ r ∈ db.assertions, r ∈ d.assertions) ∧
    ∀ r ∈ d.assertions, r ∈ db.assertions ∨ r ∈ rows)
    (by
      rintro row hrow d d' hins ⟨hok, hp, ho, hold, hnew⟩
      refine ⟨hok.insert hins, ?_⟩
      obtain ⟨-, -, -, -, rfl⟩ := INSERT_ASSERTION_ok.mp hins
      refine ⟨hp, ho, fun r hr => mem_insertNew_of_mem (hold r hr), fun r hr => ?_⟩
      rcases mem_insertNew.mp hr with hr | ⟨rfl, -⟩
      · exact hnew r hr
      · exact Or.inr hrow) h ⟨hi, rfl, rfl, fun _ hr => hr, fun _ hr => Or.inl hr⟩
  have heach := executemany_each (P := fun row d => row.id ∈ d.ids)
    (by
      intro row _ d d' hins
      obtain ⟨-, -, -, -, rfl⟩ := INSERT_ASSERTION_ok.mp hins
      exact key_mem_insertNew)
    (by
      intro row _ _ d d' hins hmem
      obtain ⟨-, -, -, -, rfl⟩ := INSERT_ASSERTION_ok.mp hins
      obtain ⟨q, hq, hid⟩ := List.mem_map.mp hmem
      exact List.mem_map.mpr ⟨q, mem_insertNew_of_mem hq, hid⟩) h
  exact ⟨hkeep.1, hkeep.2.1, hkeep.2.2.1, hkeep.2.2.2.1, hkeep.2.2.2.2, heach⟩

/-- The second writes citations of the batch, all of assertions the tenant can see. -/
theorem write_citations {rows : List ProvenanceRow}
    (h : executemany (INSERT_PROVENANCE tenant) rows db = .ok db')
    (hi : (db.provenance.map ProvenanceRow.id).Nodup) :
    (db'.provenance.map ProvenanceRow.id).Nodup ∧ db'.assertions = db.assertions ∧
      db'.outbox = db.outbox ∧ (∀ p ∈ db.provenance, p ∈ db'.provenance) ∧
      (∀ p ∈ db'.provenance, p ∈ db.provenance ∨ p ∈ rows) ∧
      ∀ row ∈ rows, db.sees tenant row.assertion_id ∧
        row.id ∈ db'.provenance.map ProvenanceRow.id := by
  have hkeep := executemany_inv (I := fun d => (d.provenance.map ProvenanceRow.id).Nodup ∧
    d.assertions = db.assertions ∧ d.outbox = db.outbox ∧
    (∀ p ∈ db.provenance, p ∈ d.provenance) ∧
    ∀ p ∈ d.provenance, p ∈ db.provenance ∨ p ∈ rows)
    (by
      rintro row hrow d d' hins ⟨hnd, ha, ho, hold, hnew⟩
      obtain ⟨-, -, -, rfl⟩ := INSERT_PROVENANCE_ok.mp hins
      refine ⟨nodup_insertNew hnd, ha, ho, fun p hp => mem_insertNew_of_mem (hold p hp),
        fun p hp => ?_⟩
      rcases mem_insertNew.mp hp with hp | ⟨rfl, -⟩
      · exact hnew p hp
      · exact Or.inr hrow) h ⟨hi, rfl, rfl, fun _ hp => hp, fun _ hp => Or.inl hp⟩
  have heach := executemany_each
    (P := fun row d => d.sees tenant row.assertion_id ∧ row.id ∈ d.provenance.map ProvenanceRow.id)
    (by
      intro row _ d d' hins
      obtain ⟨-, -, hs, rfl⟩ := INSERT_PROVENANCE_ok.mp hins
      exact ⟨hs, key_mem_insertNew⟩)
    (by
      rintro row _ _ d d' hins ⟨hs, hmem⟩
      obtain ⟨-, -, -, rfl⟩ := INSERT_PROVENANCE_ok.mp hins
      obtain ⟨q, hq, hid⟩ := List.mem_map.mp hmem
      exact ⟨hs, List.mem_map.mpr ⟨q, mem_insertNew_of_mem hq, hid⟩⟩) h
  refine ⟨hkeep.1, hkeep.2.1, hkeep.2.2.1, hkeep.2.2.2.1, hkeep.2.2.2.2, fun row hrow => ?_⟩
  obtain ⟨hs, hmem⟩ := heach row hrow
  exact ⟨by simpa only [Db.sees, hkeep.2.1] using hs, hmem⟩

/-- The third writes events of the batch. -/
theorem write_events {rows : List OutboxRow} (h : executemany INSERT_OUTBOX rows db = .ok db')
    (hi : (db.outbox.map OutboxRow.id).Nodup) :
    (db'.outbox.map OutboxRow.id).Nodup ∧ db'.assertions = db.assertions ∧
      db'.provenance = db.provenance ∧ (∀ o ∈ db.outbox, o ∈ db'.outbox) ∧
      (∀ o ∈ db'.outbox, o ∈ db.outbox ∨ o ∈ rows) ∧
      ∀ row ∈ rows, row.id ∈ db'.outbox.map OutboxRow.id := by
  have hkeep := executemany_inv (I := fun d => (d.outbox.map OutboxRow.id).Nodup ∧
    d.assertions = db.assertions ∧ d.provenance = db.provenance ∧
    (∀ o ∈ db.outbox, o ∈ d.outbox) ∧ ∀ o ∈ d.outbox, o ∈ db.outbox ∨ o ∈ rows)
    (by
      rintro row hrow d d' hins ⟨hnd, ha, hp, hold, hnew⟩
      obtain ⟨-, rfl⟩ := INSERT_OUTBOX_ok.mp hins
      refine ⟨nodup_insertNew hnd, ha, hp, fun o ho => mem_insertNew_of_mem (hold o ho),
        fun o ho => ?_⟩
      rcases mem_insertNew.mp ho with ho | ⟨rfl, -⟩
      · exact hnew o ho
      · exact Or.inr hrow) h ⟨hi, rfl, rfl, fun _ ho => ho, fun _ ho => Or.inl ho⟩
  have heach := executemany_each (P := fun row d => row.id ∈ d.outbox.map OutboxRow.id)
    (by
      intro row _ d d' hins
      obtain ⟨-, rfl⟩ := INSERT_OUTBOX_ok.mp hins
      exact key_mem_insertNew)
    (by
      intro row _ _ d d' hins hmem
      obtain ⟨-, rfl⟩ := INSERT_OUTBOX_ok.mp hins
      obtain ⟨q, hq, hid⟩ := List.mem_map.mp hmem
      exact List.mem_map.mpr ⟨q, mem_insertNew_of_mem hq, hid⟩) h
  exact ⟨hkeep.1, hkeep.2.1, hkeep.2.2.1, hkeep.2.2.2.1, hkeep.2.2.2.2, heach⟩

/-- The three statements of a batch. -/
theorem write_in_phases {now : Time} {batch : List StoredAssertion} {prepared : PreparedWrite}
    (hp : prepare deps tenant now batch = some prepared)
    (h : GuardMem.write_in deps tenant prepared db = .ok db') :
    ∃ d₁ d₂,
      executemany (INSERT_ASSERTION deps.uuid tenant)
        (batch.map fun a => assertion_params a tenant (deps.embedding a.predicate a.object)) db =
          .ok d₁ ∧
      executemany (INSERT_PROVENANCE tenant) (batch.flatMap (provenance_params deps.uuid)) d₁ =
        .ok d₂ ∧
      executemany INSERT_OUTBOX (batch.map fun a => outbox_params deps.uuid a tenant now) d₂ =
        .ok db' := by
  unfold prepare at hp
  split at hp
  · exact absurd hp (by simp)
  · obtain rfl := Option.some.inj hp
    simp only [GuardMem.write_in, bind_ok] at h
    obtain ⟨d₁, h₁, d₂, h₂, h₃⟩ := h
    exact ⟨d₁, d₂, h₁, h₂, h₃⟩

/-- What a batch leaves: the rows and events it found, and new ones that are all its own. -/
theorem write_in_rows {now : Time} {batch : List StoredAssertion} {prepared : PreparedWrite}
    (hp : prepare deps tenant now batch = some prepared)
    (h : GuardMem.write_in deps tenant prepared db = .ok db') (hi : Wf deps.uuid db) :
    (∀ r ∈ db.assertions, r ∈ db'.assertions) ∧
    (∀ r ∈ db'.assertions, r ∈ db.assertions ∨
      ∃ a ∈ batch, r = assertion_params a tenant (deps.embedding a.predicate a.object)) ∧
    (∀ o ∈ db.outbox, o ∈ db'.outbox) ∧
    (∀ o ∈ db'.outbox, o ∈ db.outbox ∨ ∃ a ∈ batch, o = outbox_params deps.uuid a tenant now) := by
  obtain ⟨d₁, d₂, h₁, h₂, h₃⟩ := write_in_phases hp h
  obtain ⟨-, hp₁, ho₁, hold₁, hnew₁, -⟩ := write_rows h₁ hi.toRowsOk
  obtain ⟨-, ha₂, ho₂, -, -, -⟩ := write_citations h₂ (by rw [hp₁]; exact hi.citations_nodup)
  obtain ⟨-, ha₃, -, hold₃, hnew₃, -⟩ := write_events h₃ (by rw [ho₂, ho₁]; exact hi.outbox_nodup)
  have hass : db'.assertions = d₁.assertions := ha₃.trans ha₂
  have hout : d₂.outbox = db.outbox := ho₂.trans ho₁
  refine ⟨fun r hr => hass ▸ hold₁ r hr, fun r hr => ?_, fun o ho => hold₃ o (hout ▸ ho),
    fun o ho => ?_⟩
  · rcases hnew₁ r (hass ▸ hr) with hold | hnew
    · exact Or.inl hold
    · obtain ⟨a, ha, rfl⟩ := List.mem_map.mp hnew
      exact Or.inr ⟨a, ha, rfl⟩
  · rcases hnew₃ o ho with hold | hnew
    · exact Or.inl (hout ▸ hold)
    · obtain ⟨a, ha, rfl⟩ := List.mem_map.mp hnew
      exact Or.inr ⟨a, ha, rfl⟩

/-- CORRECT: a batch keeps the database well formed. -/
theorem Wf.write_in {now : Time} {batch : List StoredAssertion} {prepared : PreparedWrite}
    (hp : prepare deps tenant now batch = some prepared)
    (h : GuardMem.write_in deps tenant prepared db = .ok db') (hi : Wf deps.uuid db) :
    Wf deps.uuid db' := by
  obtain ⟨d₁, d₂, h₁, h₂, h₃⟩ := write_in_phases hp h
  obtain ⟨hrows, hp₁, ho₁, hold₁, hnew₁, -⟩ := write_rows h₁ hi.toRowsOk
  obtain ⟨hnd₂, ha₂, ho₂, hold₂, hnew₂, heach₂⟩ :=
    write_citations h₂ (by rw [hp₁]; exact hi.citations_nodup)
  obtain ⟨hnd₃, ha₃, hprov, hold₃, hnew₃, heach₃⟩ :=
    write_events h₃ (by rw [ho₂, ho₁]; exact hi.outbox_nodup)
  have hass : db'.assertions = d₁.assertions := ha₃.trans ha₂
  have hout : d₂.outbox = db.outbox := ho₂.trans ho₁
  have hrows' : RowsOk deps.uuid db' := by
    obtain ⟨h1, h2, h3, h4⟩ := hrows
    simp only [Db.ids, ← hass] at h1 h2 h3 h4
    exact ⟨h1, h2, h3, h4⟩
  have hold : ∀ r ∈ db.assertions, r ∈ db'.assertions := fun r hr => hass ▸ hold₁ r hr
  have hvalid : ∀ {aid}, aid ∈ db'.ids → deps.uuid.valid aid = true := by
    intro aid haid
    obtain ⟨r, hr, rfl⟩ := List.mem_map.mp haid
    exact hrows'.ids_valid r hr
  -- every assertion of the batch is now a row of this tenant, and cited
  have hcite : ∀ a ∈ batch, ∀ c ∈ a.provenance,
      citation_params deps.uuid a.assertion_id c ∈ batch.flatMap (provenance_params deps.uuid) :=
    fun a ha c hc => List.mem_flatMap.mpr ⟨a, ha, List.mem_map_of_mem hc⟩
  have hseen : ∀ a ∈ batch, ∃ r ∈ db'.assertions, r.id = a.assertion_id ∧ r.tenant_id = tenant := by
    intro a ha
    obtain ⟨c, hc⟩ := List.exists_mem_of_ne_nil _ a.sourced
    obtain ⟨r, hr, hid, ht⟩ := (heach₂ _ (hcite a ha c hc)).1
    exact ⟨r, hass ▸ hr, hid, ht⟩
  have hbatch : ∀ a ∈ batch, a.assertion_id ∈ db'.ids := by
    intro a ha
    obtain ⟨r, hr, hid, -⟩ := hseen a ha
    exact List.mem_map.mpr ⟨r, hr, hid⟩
  have hcited : ∀ p ∈ db'.provenance,
      p.assertion_id ∈ db'.ids ∧ ∃ c, p = citation_params deps.uuid p.assertion_id c := by
    intro p hp
    rcases hnew₂ p (hprov ▸ hp) with hpold | hpnew
    · obtain ⟨haid, hc⟩ := hi.cited p (hp₁ ▸ hpold)
      obtain ⟨r, hr, hid⟩ := List.mem_map.mp haid
      exact ⟨hid ▸ mem_ids (hold r hr), hc⟩
    · obtain ⟨a, ha, hmem⟩ := List.mem_flatMap.mp hpnew
      obtain ⟨c, -, rfl⟩ := List.mem_map.mp hmem
      exact ⟨hbatch a ha, c, rfl⟩
  have hevents : ∀ o ∈ db'.outbox, o.id = outbox_id deps.uuid o.assertion_id ∧
      ∃ r ∈ db'.assertions, r.id = o.assertion_id ∧
        ∃ e, pending_from_row o = .ok e ∧ e.tenant_id = r.tenant_id := by
    intro o ho
    rcases hnew₃ o ho with hoold | honew
    · obtain ⟨hid, r, hr, hrest⟩ := hi.events o (hout ▸ hoold)
      exact ⟨hid, r, hold r hr, hrest⟩
    · obtain ⟨a, ha, rfl⟩ := List.mem_map.mp honew
      obtain ⟨r, hr, hid, ht⟩ := hseen a ha
      exact ⟨rfl, r, hr, hid, _, pending_from_row_params deps.uuid a tenant now 0 none, ht.symm⟩
  refine { hrows' with
    citations_nodup := hprov ▸ hnd₂, cited := hcited, sourced := ?_,
    outbox_nodup := hnd₃, events := hevents, queued := ?_ }
  · intro r hr
    rcases hnew₁ r (hass ▸ hr) with hrold | hrnew
    · obtain ⟨p, hp, hid⟩ := hi.sourced r hrold
      exact ⟨p, hprov ▸ hold₂ p (hp₁ ▸ hp), hid⟩
    · obtain ⟨a, ha, rfl⟩ := List.mem_map.mp hrnew
      obtain ⟨c, hc⟩ := List.exists_mem_of_ne_nil _ a.sourced
      -- the citation's id is taken: by a citation of this very assertion
      obtain ⟨p, hp, hpid⟩ := List.mem_map.mp (heach₂ _ (hcite a ha c hc)).2
      have hp' : p ∈ db'.provenance := hprov ▸ hp
      obtain ⟨haid, c', hc'⟩ := hcited p hp'
      refine ⟨p, hp', citation_id_assertion deps.uuid (hvalid haid) (hvalid (hbatch a ha))
        (p := c') (q := c) ?_⟩
      rw [hc'] at hpid
      exact hpid
  · intro r hr
    rcases hnew₁ r (hass ▸ hr) with hrold | hrnew
    · obtain ⟨o, ho, hid⟩ := hi.queued r hrold
      exact ⟨o, hold₃ o (hout ▸ ho), hid⟩
    · obtain ⟨a, ha, rfl⟩ := List.mem_map.mp hrnew
      obtain ⟨o, ho, hid⟩ := List.mem_map.mp (heach₃ _ (List.mem_map_of_mem ha))
      exact ⟨o, ho, outbox_id_injective deps.uuid ((hevents o ho).1.symm.trans hid)⟩

/-- With every row cited, the deferred trigger is silent. -/
theorem Wf.commits (h : Wf uuid db') : ∀ r ∈ db'.assertions, unsourced db db' r = false := by
  intro r hr
  obtain ⟨p, hp, hid⟩ := h.sourced r hr
  simp only [unsourced, Bool.and_eq_false_iff]
  refine Or.inr (List.all_eq_false.mpr ⟨p, hp, by simp [hid]⟩)

theorem Wf.append {t tr k p c} (h : Wf deps.uuid db) : Wf deps.uuid (append deps t tr k p c db) :=
  h.of_tables rfl rfl rfl

theorem Wf.append_decision {r t tr c} (h : Wf deps.uuid db) :
    Wf deps.uuid (append_decision deps r t tr c db) := h.of_tables rfl rfl rfl

theorem Wf.upsert {now : Time} {batch : List StoredAssertion}
    (h : GuardMem.upsert deps tenant now batch db = .ok db') (hi : Wf deps.uuid db) :
    Wf deps.uuid db' := by
  unfold GuardMem.upsert at h
  split at h
  · obtain rfl := Except.ok.inj h
    exact hi
  · next prepared hp =>
      simp only [bind_ok, Prod.exists, transaction_ok, Except.ok.injEq, Prod.mk.injEq] at h
      obtain ⟨_, _, ⟨⟨d, hd, -, rfl⟩, -⟩, rfl⟩ := h
      exact hi.write_in hp hd

/-! ### Updates in place -/

/-- An update that leaves keys and tenants alone, and every row within its checks. -/
theorem Wf.map_assertions {f : AssertionRow → AssertionRow} (h : Wf uuid db)
    (hid : ∀ r, (f r).id = r.id) (ht : ∀ r, (f r).tenant_id = r.tenant_id)
    (hchk : ∀ r ∈ db.assertions, (f r).violated = none)
    (hlink : ∀ r ∈ db.assertions, ∀ s ∈ (f r).superseded_by, s ∈ db.ids) :
    Wf uuid { db with assertions := db.assertions.map f } := by
  have hids : ({ db with assertions := db.assertions.map f } : Db).ids = db.ids := by
    simp only [Db.ids, List.map_map]
    exact List.map_congr_left fun r _ => hid r
  refine
    { ids_nodup := hids ▸ h.ids_nodup, ids_valid := ?_, checked := ?_, linked := ?_,
      citations_nodup := h.citations_nodup, cited := fun p hp => hids ▸ h.cited p hp, sourced := ?_,
      outbox_nodup := h.outbox_nodup, events := ?_, queued := ?_ }
  · intro _ hmem
    obtain ⟨r, hr, rfl⟩ := List.mem_map.mp hmem
    exact hid r ▸ h.ids_valid r hr
  · intro _ hmem
    obtain ⟨r, hr, rfl⟩ := List.mem_map.mp hmem
    exact hchk r hr
  · intro _ hmem
    obtain ⟨r, hr, rfl⟩ := List.mem_map.mp hmem
    exact fun s hs => hids ▸ hlink r hr s hs
  · intro _ hmem
    obtain ⟨r, hr, rfl⟩ := List.mem_map.mp hmem
    exact hid r ▸ h.sourced r hr
  · intro o ho
    obtain ⟨hoid, r, hr, hra, e, he, het⟩ := h.events o ho
    exact ⟨hoid, f r, List.mem_map_of_mem hr, (hid r).trans hra, e, he, het.trans (ht r).symm⟩
  · intro _ hmem
    obtain ⟨r, hr, rfl⟩ := List.mem_map.mp hmem
    exact hid r ▸ h.queued r hr

/-- An update of the outbox that leaves keys and payloads alone. -/
theorem Wf.map_outbox {f : OutboxRow → OutboxRow} (h : Wf uuid db) (hid : ∀ o, (f o).id = o.id)
    (ha : ∀ o, (f o).assertion_id = o.assertion_id) (he : ∀ o, (f o).event = o.event) :
    Wf uuid { db with outbox := db.outbox.map f } := by
  have hpend : ∀ o, pending_from_row (f o) = pending_from_row o := fun o => by
    simp only [pending_from_row, hid, ha, he]
  refine { h with outbox_nodup := ?_, events := ?_, queued := ?_ }
  · have : (db.outbox.map f).map OutboxRow.id = db.outbox.map OutboxRow.id := by
      rw [List.map_map]; exact List.map_congr_left fun o _ => hid o
    exact this ▸ h.outbox_nodup
  · intro _ hmem
    obtain ⟨o, ho, rfl⟩ := List.mem_map.mp hmem
    obtain ⟨hoid, r, hr, hra, hpay⟩ := h.events o ho
    refine ⟨(hid o).trans (hoid.trans (by rw [ha])), r, hr, hra.trans (ha o).symm, ?_⟩
    rw [hpend]
    exact hpay
  · intro r hr
    obtain ⟨o, ho, hoa⟩ := h.queued r hr
    exact ⟨f o, List.mem_map_of_mem ho, (ha o).trans hoa⟩

theorem Wf.supersede_in {old new : AssertionId} {t : Time} (h : Wf uuid db)
    (hs : GuardMem.supersede_in tenant old new t db = .ok db') : Wf uuid db' := by
  obtain ⟨-, hchk, hnew, rfl⟩ := supersede_in_ok.mp hs
  refine h.map_assertions (fun r => ?_) (fun r => ?_) (fun r hr => ?_) (fun r hr s hs => ?_)
  · split <;> rfl
  · split <;> rfl
  · split
    · next hp => exact hchk r hr hp
    · exact h.checked r hr
  · split at hs
    · simp only [AssertionRow.retire, Option.mem_some_iff] at hs
      exact hs ▸ hnew
    · exact h.linked r hr s hs

theorem Wf.reveal {aid : AssertionId} (h : Wf uuid db) :
    Wf uuid (REVEAL_ASSERTION tenant aid db) := by
  refine h.map_assertions (fun r => ?_) (fun r => ?_) (fun r hr => ?_) (fun r hr s hs => ?_)
  · split <;> rfl
  · split <;> rfl
  · have hr := h.checked r hr
    split
    · exact hr
    · exact hr
  · refine h.linked r hr s ?_
    split at hs <;> exact hs

theorem Wf.mark {oid : String} {t : Time} (h : Wf uuid db) : Wf uuid (MARK_DISPATCHED t oid db) := by
  refine h.map_outbox (fun o => ?_) (fun o => ?_) (fun o => ?_) <;> split <;> rfl

end GuardMem
