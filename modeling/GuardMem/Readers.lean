import GuardMem.Dispatch
import GuardMem.SingleValue

/-! What an event out of attempts costs the readers.

    An apply retires its incumbent in the transaction that inserts the successor, and the successor is
    invisible until its event is dispatched. Should that event run out of attempts, readers have lost
    the old value and never get the new one (`nothing_left`). CORRECT as long as no claim spends the
    last attempt of the last live row of a published key, and no redelivered apply retires a value
    without inserting one (`readers_keep`); the condition is exact (`answers_iff_kept`). -/

namespace GuardMem

open Lib.Table Lib.Transition

variable {G : Type} {env : Env G} {w w' : World G} {l : Label}

/-! ### Attempts -/

/-- The event is in the pass's hands. -/
def Pass.Holds (y : Pass) (e : PendingEvent) : Prop :=
  e ∈ y.todo ∨ (∃ a, y.stage = .loaded e a) ∨ y.stage = .written e

/-- The cap is hard, and what is in hand or dispatched has been attempted. -/
structure Counted (env : Env G) (w : World G) : Prop where
  capped : ∀ o ∈ w.db.outbox, o.attempts ≤ env.relay.max_attempts
  tried : ∀ o ∈ w.db.outbox, o.dispatched_at ≠ none → 0 < o.attempts
  held : ∀ y ∈ w.passes, ∀ e, y.Holds e → ∃ o ∈ w.db.outbox, o.id = e.outbox_id ∧ 0 < o.attempts

theorem IsClaim.below {cfg : RelayConfig} {locked batch : List String} {db : Db} {uuid : Uuid5}
    (hc : IsClaim cfg locked batch db) (hwf : Wf uuid db) {o : OutboxRow} (ho : o ∈ db.outbox)
    (hb : o.id ∈ batch) : o.dispatched_at = none ∧ o.attempts < cfg.max_attempts := by
  obtain ⟨-, q, hq, hqid, hpend⟩ := hc.pending o.id hb
  obtain rfl := eq_of_key OutboxRow.id hwf.outbox_nodup hq ho hqid
  simpa [OutboxRow.pending] using hpend

/-- What a pass has in hand it had before, or has just claimed. -/
theorem step_holds (h : step env w l = some w') {y : Pass} (hy : y ∈ w'.passes) {e : PendingEvent}
    (hh : y.Holds e) : (∃ x ∈ w.passes, x.Holds e) ∨ ∃ locked batch events,
      IsClaim env.relay locked batch w.db ∧ w'.db = CLAIM_OUTBOX batch w.db ∧
        claimed_events batch w.db = .ok events ∧ e ∈ events := by
  rcases step_passes h hy with hy | @⟨locked, batch, hc, hdb⟩ | ⟨hx, htodo, hidle⟩ | ⟨hx, htodo, -⟩ |
    ⟨hx, hstage, -⟩
  · exact Or.inl ⟨y, hy, hh⟩
  · cases hev : claimed_events batch w.db with
    | error _ =>
        rw [hev] at hh
        rcases hh with he | ⟨a, hs⟩ | hs
        · cases he
        · cases hs
        · cases hs
    | ok events =>
        rw [hev] at hh
        rcases hh with he | ⟨a, hs⟩ | hs
        · exact Or.inr ⟨locked, batch, events, hc, hdb, hev, he⟩
        · cases hs
        · cases hs
  · rcases hh with he | ⟨a, hs⟩ | hs
    · exact Or.inl ⟨_, hx, Or.inl (htodo e he)⟩
    · rw [hidle] at hs; cases hs
    · rw [hidle] at hs; cases hs
  · rcases hh with he | ⟨a, hs⟩ | hs
    · exact Or.inl ⟨_, hx, Or.inl (htodo ▸ List.mem_cons_of_mem _ he)⟩
    · obtain ⟨rfl, -⟩ := Stage.loaded.inj hs
      exact Or.inl ⟨_, hx, Or.inl (htodo ▸ List.mem_cons_self)⟩
    · cases hs
  · rcases hh with he | ⟨a, hs⟩ | hs
    · exact Or.inl ⟨_, hx, Or.inl he⟩
    · cases hs
    · obtain rfl := Stage.written.inj hs
      exact Or.inl ⟨_, hx, Or.inr (Or.inl ⟨_, hstage⟩)⟩

theorem step_held (h : step env w l = some w') (hi : Wf env.deps.uuid w.db) (hc : Counted env w) :
    ∀ y ∈ w'.passes, ∀ e, y.Holds e → ∃ o ∈ w'.db.outbox, o.id = e.outbox_id ∧ 0 < o.attempts := by
  intro y hy e hh
  rcases step_holds h hy hh with ⟨x, hx, hxe⟩ | ⟨_, batch, events, -, hdb, hev, he⟩
  · obtain ⟨o, ho, hid, hpos⟩ := hc.held x hx e hxe
    obtain ⟨o', ho', hstep⟩ := (step_evolves h hi).events o ho
    exact ⟨o', ho', hstep.id.trans hid, hpos.trans_le hstep.attempts⟩
  · obtain ⟨o, ho, hid, -, hb, -⟩ := claimed_events_mem hev he
    refine ⟨{ o with attempts := o.attempts + 1 }, ?_, hid, Nat.succ_pos _⟩
    rw [hdb]
    exact mem_updateWhere.mpr ⟨o, ho, by rw [if_pos (by simpa using hb)]⟩

theorem step_counted (h : step env w l = some w') (hi : Wf env.deps.uuid w.db)
    (hc : Counted env w) : Counted env w' := by
  have hall : ∀ o ∈ w'.db.outbox, o.attempts ≤ env.relay.max_attempts ∧
      (o.dispatched_at ≠ none → 0 < o.attempts) := by
    have old : ∀ o ∈ w.db.outbox, o.attempts ≤ env.relay.max_attempts ∧
        (o.dispatched_at ≠ none → 0 < o.attempts) := fun o ho => ⟨hc.capped o ho, hc.tried o ho⟩
    cases step_effect hi h with
    | quiet hdb => exact hdb ▸ old
    | refused _ _ _ => exact old
    | wrote _ _ _ hdb => exact hdb ▸ old
    | landed _ _ _ =>
        intro o ho
        rcases mem_insertNew.mp ho with ho | ⟨rfl, -⟩
        · exact old o ho
        · exact ⟨Nat.zero_le _, fun hd => absurd rfl hd⟩
    | upserted hu =>
        intro o ho
        rcases (upsert_rows hu hi).2.2.2 o ho with ho | ⟨a, -, rfl⟩
        · exact old o ho
        · exact ⟨Nat.zero_le _, fun hd => absurd rfl hd⟩
    | claimed hclaim =>
        intro o ho
        obtain ⟨q, hq, rfl⟩ := mem_updateWhere.mp ho
        split
        · next hb =>
            obtain ⟨-, hlt⟩ := hclaim.below hi hq (by simpa using hb)
            exact ⟨hlt, fun _ => Nat.succ_pos _⟩
        · exact old q hq
    | completed hx hstage =>
        intro o ho
        obtain ⟨q, hq, rfl⟩ := mem_updateWhere.mp ho
        split
        · next hmine =>
            simp only [Bool.and_eq_true, beq_iff_eq] at hmine
            obtain ⟨s, hs, hid, hpos⟩ := hc.held _ (List.mem_of_getElem? hx) _ (Or.inr (Or.inr hstage))
            obtain rfl := eq_of_key OutboxRow.id hi.outbox_nodup hs hq (hid.trans hmine.1.symm)
            exact ⟨(old s hs).1, fun _ => hpos⟩
        · exact old q hq
  exact ⟨fun o ho => (hall o ho).1, fun o ho => (hall o ho).2, step_held h hi hc⟩

theorem counted_init : Counted env env.init :=
  ⟨fun _ ho => absurd ho List.not_mem_nil, fun _ ho => absurd ho List.not_mem_nil,
    fun _ hy => absurd hy List.not_mem_nil⟩

/-- Something is visible only if the cap allows an attempt. -/
theorem Counted.cap_pos (hc : Counted env w) (hi : Wf env.deps.uuid w.db) (hr : Relayed env w)
    {r : AssertionRow} (hrow : r ∈ w.db.assertions) (hv : r.visible = true) :
    0 < env.relay.max_attempts := by
  obtain ⟨o, ho, hoa⟩ := hi.queued r hrow
  have hd := (hr.dispatched r hrow o ho hoa).mp hv
  exact (hc.tried o ho hd).trans_le (hc.capped o ho)

/-! ### What readers are answered -/

/-- A row's event can still be claimed. -/
def Db.Claimable (cap : ℕ) (db : Db) (r : AssertionRow) : Prop :=
  ∃ o ∈ db.outbox, o.assertion_id = r.id ∧ o.pending cap = true

instance (cap : ℕ) (db : Db) (r : AssertionRow) : Decidable (db.Claimable cap r) :=
  inferInstanceAs (Decidable (∃ o ∈ db.outbox, _ ∧ _))

/-- The key has a live row that readers see, or whose event can still be claimed. -/
def Db.Answers (cap : ℕ) (db : Db) (k : TenantId × Namespace × EntityId × String) : Prop :=
  ∃ q ∈ db.assertions, q.key = k ∧ q.live = true ∧ (q.visible = true ∨ db.Claimable cap q)

instance (cap : ℕ) (db : Db) (k : TenantId × Namespace × EntityId × String) :
    Decidable (db.Answers cap k) :=
  inferInstanceAs (Decidable (∃ q ∈ db.assertions, _ ∧ _ ∧ (_ ∨ _)))

/-- Every key of a `ONE` predicate that was ever published is answered. -/
def Answered (env : Env G) (w : World G) : Prop :=
  ∀ r ∈ w.db.assertions, env.deps.one r.predicate → r.visible = true →
    w.db.Answers env.relay.max_attempts r.key

instance (w : World G) : Decidable (Answered env w) :=
  inferInstanceAs (Decidable (∀ r ∈ w.db.assertions, _ → _ → _))

/-- A landing apply that retires a value but inserts none, its row being stored already, leaves its key
    another live row that is visible or may still be. -/
def Landing.Keeps (env : Env G) (db : Db) (p : Landing) : Prop :=
  env.deps.one p.governed.candidate.predicate → assertion_id env.deps.uuid p.governed ∈ db.ids →
    ∀ old ∈ retires p.governed, ∃ q ∈ db.assertions, q.key = p.governed.key p.tenant ∧
      q.live = true ∧ q.id ≠ old ∧ (q.visible = true ∨ db.Claimable env.relay.max_attempts q)

instance (db : Db) (p : Landing) : Decidable (p.Keeps env db) :=
  inferInstanceAs (Decidable (_ → _ → ∀ old ∈ retires p.governed, _))

/-- The batch this label claims in this state. -/
def claiming (env : Env G) (w : World G) : Label → Option (List String)
  | .claim locked batch => if IsClaim env.relay locked batch w.db then some batch else none
  | _ => none

/-- The claim leaves every published key a live row that is visible, or whose event it does not take
    at its last attempt. -/
def Spares (env : Env G) (db : Db) (batch : List String) : Prop :=
  ∀ r ∈ db.assertions, env.deps.one r.predicate → r.visible = true →
    ∃ q ∈ db.assertions, q.key = r.key ∧ q.live = true ∧ (q.visible = true ∨
      ∃ o ∈ db.outbox, o.assertion_id = q.id ∧ o.dispatched_at = none ∧
        (if o.id ∈ batch then o.attempts + 1 else o.attempts) < env.relay.max_attempts)

instance (db : Db) (batch : List String) : Decidable (Spares env db batch) :=
  inferInstanceAs (Decidable (∀ r ∈ db.assertions, _ → _ → _))

/-- The step takes no published key its last answer. -/
def Kept (env : Env G) (w : World G) (l : Label) : Prop :=
  (∀ p ∈ landing env w l, p.Keeps env w.db) ∧ ∀ batch ∈ claiming env w l, Spares env w.db batch

instance (w : World G) (l : Label) : Decidable (Kept env w l) :=
  inferInstanceAs (Decidable (_ ∧ _))

/-! ### A step -/

/-- A claimable event is claimable after a write that leaves it alone. -/
theorem Db.Claimable.of_mem {cap : ℕ} {db db' : Db} {q q' : AssertionRow} (h : db.Claimable cap q)
    (hid : q'.id = q.id)
    (ho : ∀ o ∈ db.outbox, o.assertion_id = q.id → o.pending cap = true → o ∈ db'.outbox) :
    db'.Claimable cap q' := by
  obtain ⟨o, hmem, hoa, hp⟩ := h
  exact ⟨o, ho o hmem hoa hp, hoa.trans hid.symm, hp⟩

/-- The successor a landing apply inserts answers its key. -/
theorem Landing.answers {p : Landing} (hi : Wf env.deps.uuid w.db)
    (hcap : 0 < env.relay.max_attempts) (hl : Lands env.deps p.tenant p.clock p.governed w.db)
    (hnew : assertion_id env.deps.uuid p.governed ∉ w.db.ids) :
    (landed env.deps p.tenant p.trace p.clock p.governed w.db).Answers env.relay.max_attempts
      (p.governed.key p.tenant) := by
  refine ⟨_, (mem_landed hi hl).mpr (.fresh hnew), rfl, rfl, Or.inr ?_⟩
  refine ⟨fresh_event env.deps.uuid p.tenant p.clock p.governed, mem_insertNew.mpr (Or.inr ⟨rfl, ?_⟩),
    rfl, by simp [OutboxRow.pending, fresh_event, outbox_params, hcap]⟩
  intro hmem
  obtain ⟨o, ho, hoid⟩ := List.mem_map.mp hmem
  obtain ⟨hid, r, hr, hra, -⟩ := hi.events o ho
  have hoa : o.assertion_id = assertion_id env.deps.uuid p.governed :=
    outbox_id_injective env.deps.uuid (hid.symm.trans hoid)
  exact hnew (hoa ▸ hra ▸ mem_ids hr)

/-- A landing apply leaves published keys answered if and only if it keeps them. -/
theorem landed_answered_iff {p : Landing} (hp : landing env w l = some p)
    (hi : Wf env.deps.uuid w.db) (hs : SlotsOk w) (hr : Relayed env w) (hc : Counted env w)
    (ha : Answered env w)
    (hdb : w'.db = landed env.deps p.tenant p.trace p.clock p.governed w.db) :
    Answered env w' ↔ p.Keeps env w.db := by
  obtain ⟨-, -, -, -, -, -, -, -, hl⟩ := landing_some hp
  -- the incumbent is a visible row of the decision's key
  have incumbent : ∀ old, retires p.governed = some old → ∃ r ∈ w.db.assertions, r.id = old ∧
      r.key = p.governed.key p.tenant ∧ r.visible = true :=
    fun old hold => ((hs.landing hp).2 old hold).2
  -- a live row the apply does not retire still answers for its key
  have kept : ∀ q ∈ w.db.assertions, q.live = true →
      (q.visible = true ∨ w.db.Claimable env.relay.max_attempts q) →
      retires p.governed ≠ some q.id → w'.db.Answers env.relay.max_attempts q.key := by
    intro q hq hlive hans hne
    refine ⟨q, hdb ▸ (mem_landed hi hl).mpr (.kept hq hne), rfl, hlive, hans.imp_right fun hcl => ?_⟩
    exact hcl.of_mem rfl fun o ho _ _ => hdb ▸ mem_insertNew_of_mem ho
  constructor
  · intro ha' hone hstored old hold
    obtain ⟨r, hrow, rfl, hkey, hv⟩ := incumbent old hold
    have hevolves : w.db.Evolves w'.db := hdb ▸ landed_evolves
    obtain ⟨r', hr', hrr⟩ := hevolves.rows r hrow
    have hone' : env.deps.one r'.predicate := one_of_key
      (r := fresh_row env.deps p.tenant p.clock p.governed) (hrr.key.trans hkey) hone
    obtain ⟨q, hq, hqk, hlive, hans⟩ := ha' r' hr' hone' (hrr.visible hv)
    rw [hdb] at hq
    have hqkey : q.key = p.governed.key p.tenant := hqk.trans (hrr.key.trans hkey)
    rcases (mem_landed hi hl).mp hq with ⟨hq, hne⟩ | hnew | ⟨hq, -, -, -⟩
    · refine ⟨q, hq, hqkey, hlive, fun h => hne (h ▸ hold), hans.imp_right ?_⟩
      rintro ⟨o, ho, hoa, hpend⟩
      rw [hdb] at ho
      rcases mem_insertNew.mp ho with ho | ⟨rfl, hfresh⟩
      · exact ⟨o, ho, hoa, hpend⟩
      · obtain ⟨o, ho, hoq⟩ := hi.queued q hq
        refine absurd (List.mem_map.mpr ⟨o, ho, ?_⟩) hfresh
        rw [(hi.events o ho).1, hoq, ← hoa]
        rfl
    · exact absurd hstored hnew
    · simp [AssertionRow.live, AssertionRow.retire] at hlive
  · intro hkeeps r' hr' hone hv
    -- the key of a retired incumbent has a successor, or keeps another answer
    have replaced : ∀ old, retires p.governed = some old →
        env.deps.one p.governed.candidate.predicate →
        w'.db.Answers env.relay.max_attempts (p.governed.key p.tenant) := by
      intro old hold hone
      by_cases hstored : assertion_id env.deps.uuid p.governed ∈ w.db.ids
      · obtain ⟨q, hq, hqk, hlive, hne, hans⟩ := hkeeps hone hstored old hold
        exact hqk ▸ kept q hq hlive hans fun h => hne (Option.some.inj (h.symm.trans hold))
      · obtain ⟨r, hrow, -, -, hrv⟩ := incumbent old hold
        exact hdb ▸ Landing.answers hi (hc.cap_pos hi hr hrow hrv) hl hstored
    have published : ∀ r ∈ w.db.assertions, env.deps.one r.predicate → r.visible = true →
        w'.db.Answers env.relay.max_attempts r.key := by
      intro r hrow hone hrv
      obtain ⟨q, hq, hqk, hlive, hans⟩ := ha r hrow hone hrv
      by_cases hret : retires p.governed = some q.id
      · obtain ⟨s, hs, hsid, hsk, -⟩ := incumbent q.id hret
        obtain rfl := hi.eq_of_id hs hq hsid
        have hkey : r.key = p.governed.key p.tenant := hqk.symm.trans hsk
        have hnew : p.governed.key p.tenant = (fresh_row env.deps p.tenant p.clock p.governed).key := rfl
        exact hkey ▸ replaced _ hret (one_of_key (hnew ▸ hkey.symm) hone)
      · exact hqk ▸ kept q hq hlive hans hret
    rw [hdb] at hr'
    rcases (mem_landed hi hl).mp hr' with ⟨hrow, -⟩ | - | ⟨hrow, -, -, -⟩
    · exact published r' hrow hone hv
    · cases hv
    · have hans := published _ hrow hone hv
      exact hans

/-- A claim leaves published keys answered if and only if it spares them. -/
theorem claimed_answered_iff {batch : List String} (ha : w'.db = CLAIM_OUTBOX batch w.db) :
    Answered env w' ↔ Spares env w.db batch := by
  have hrows : w'.db.assertions = w.db.assertions := by rw [ha]; rfl
  have hclaimable : ∀ q, w'.db.Claimable env.relay.max_attempts q ↔
      ∃ o ∈ w.db.outbox, o.assertion_id = q.id ∧ o.dispatched_at = none ∧
        (if o.id ∈ batch then o.attempts + 1 else o.attempts) < env.relay.max_attempts := by
    intro q
    rw [ha]
    simp only [Db.Claimable, CLAIM_OUTBOX, mem_updateWhere, OutboxRow.pending, exists_exists_and_eq_and,
      List.contains_iff_mem]
    refine exists_congr fun o => and_congr_right fun _ => ?_
    by_cases hb : o.id ∈ batch <;> simp [hb]
  simp only [Answered, Spares, Db.Answers, hrows, hclaimable]

/-- What completing an event makes of a row. -/
def revealed (e : PendingEvent) (r : AssertionRow) : AssertionRow :=
  if r.id == e.assertion_id && r.tenant_id == e.tenant_id then { r with visible := true } else r

/-- The row a pass reveals is live, and answers its key from then on. -/
theorem completed_answered {p : ℕ} {t : Time} {x : Pass} {e : PendingEvent}
    (hx : w.passes[p]? = some x) (hstage : x.stage = .written e) (hr : Relayed env w)
    (hi : Wf env.deps.uuid w.db) (hu : Unspoiled w) (ha : Answered env w)
    (hdb : w'.db = complete e t w.db) : Answered env w' := by
  obtain ⟨⟨⟨o, ho, hoid, hoa⟩, s, hs, hsid, hst⟩, -⟩ :=
    (hr.passes x (List.mem_of_getElem? hx)).written e hstage
  have hrr : ∀ r : AssertionRow, RowStep r (revealed e r) ∧ (revealed e r).live = r.live := by
    intro r
    unfold revealed
    split
    · exact ⟨.reveal r, rfl⟩
    · exact ⟨.refl r, rfl⟩
  have hmem : ∀ r ∈ w.db.assertions, revealed e r ∈ w'.db.assertions := fun r hrow => by
    rw [hdb]
    exact mem_updateWhere.mpr ⟨r, hrow, rfl⟩
  intro r' hr' hone hv
  rw [hdb] at hr'
  obtain ⟨r, hrow, rfl⟩ : ∃ r ∈ w.db.assertions, revealed e r = r' := mem_updateWhere.mp hr'
  rw [(hrr r).1.key]
  cases hrv : r.visible with
  | false =>
      -- newly revealed: it was live, and is the answer itself
      obtain ⟨hret, hend⟩ := hu r hrow
      refine ⟨_, hmem r hrow, (hrr r).1.key, ?_, Or.inl hv⟩
      rw [(hrr r).2]
      simp [AssertionRow.live, hret, hend hrv]
  | true =>
      obtain ⟨q, hq, hqk, hlive, hans⟩ := ha r hrow (one_of_key (hrr r).1.key.symm hone) hrv
      refine ⟨_, hmem q hq, (hrr q).1.key.trans hqk, (hrr q).2.trans hlive, ?_⟩
      by_cases hmine : q.id = e.assertion_id
      · obtain rfl := hi.eq_of_id hq hs (hmine.trans hsid.symm)
        exact Or.inl (by simp [revealed, hsid, hst])
      · refine hans.imp (hrr q).1.visible fun hcl => hcl.of_mem (hrr q).1.id fun o' ho' hoa' _ => ?_
        rw [hdb]
        refine mem_updateWhere.mpr ⟨o', ho', if_neg fun hc => hmine ?_⟩
        simp only [Bool.and_eq_true, beq_iff_eq] at hc
        obtain rfl := eq_of_key OutboxRow.id hi.outbox_nodup ho' ho (hc.1.trans hoid.symm)
        exact hoa'.symm.trans hoa

theorem claiming_some {batch : List String} (h : claiming env w l = some batch) :
    ∃ locked, l = .claim locked batch ∧ IsClaim env.relay locked batch w.db := by
  cases l with
  | claim locked b =>
      simp only [claiming] at h
      split at h
      · next hc =>
          obtain rfl := Option.some.inj h
          exact ⟨locked, rfl, hc⟩
      · cases h
  | _ => cases h

/-- What holds of every governed run. -/
structure Ready (env : Env G) (w : World G) : Prop where
  wf : Wf env.deps.uuid w.db
  slots : SlotsOk w
  relayed : Relayed env w
  counted : Counted env w
  unspoiled : Unspoiled w

theorem step_ready (h : step_governed env w l = some w') (hw : Ready env w) : Ready env w' :=
  have hstep := (step_of_governed h).1
  ⟨step_wf hstep hw.wf, step_slotsOk hstep hw.wf hw.slots, step_relayed hstep hw.wf hw.relayed,
    step_counted hstep hw.wf hw.counted, step_unspoiled h hw.wf hw.slots hw.unspoiled⟩

theorem ready_init : Ready env env.init :=
  ⟨.empty, slotsOk_init, relayed_init, counted_init, fun _ hr => absurd hr List.not_mem_nil⟩

/-- A step leaves published keys answered if and only if it takes none its last answer. -/
theorem step_answered_iff (h : step_governed env w l = some w') (hw : Ready env w)
    (ha : Answered env w) : Answered env w' ↔ Kept env w l := by
  have hstep := (step_of_governed h).1
  unfold Kept
  cases hp : landing env w l with
  | some p =>
      obtain ⟨_, _, _, rfl, -⟩ := landing_some hp
      rw [landed_answered_iff hp hw.wf hw.slots hw.relayed hw.counted ha
        (step_landing hp hw.wf hstep).1]
      simp [claiming]
  | none =>
      cases hcl : claiming env w l with
      | some batch =>
          obtain ⟨locked, rfl, hc⟩ := claiming_some hcl
          have hdb : w'.db = CLAIM_OUTBOX batch w.db := by
            simp only [step, if_pos hc, Option.some.injEq] at hstep
            rw [← hstep]
          rw [claimed_answered_iff hdb]
          simp
      | none =>
          simp only [Option.mem_def, reduceCtorEq, false_implies, implies_true, and_self, iff_true]
          have same : w'.db.assertions = w.db.assertions → w'.db.outbox = w.db.outbox →
              Answered env w' := fun hrows houtbox => by
            simpa only [Answered, Db.Answers, Db.Claimable, hrows, houtbox] using ha
          cases step_effect hw.wf hstep with
          | quiet hdb => exact same (by rw [hdb]) (by rw [hdb])
          | refused _ _ _ => exact same rfl rfl
          | wrote _ _ _ hdb => exact same (by rw [hdb]) (by rw [hdb])
          | landed hx hnext hl =>
              rw [landing_apply hx hnext, if_pos hl] at hp
              cases hp
          | upserted _ => exact absurd (step_of_governed h).2 (by simp [Label.governed])
          | claimed hc => simp [claiming, hc] at hcl
          | completed hx hstage =>
              exact completed_answered hx hstage hw.relayed hw.wf hw.unspoiled ha rfl

/-- A run leaves published keys answered throughout if and only if no step takes one its last answer. -/
theorem answered_iff_kept (env : Env G) (ls : List Label) :
    Always (step_governed env) (Answered env) env.init ls ↔
      Along (step_governed env) (Kept env) env.init ls := by
  refine always_iff_along (I := Ready env) (fun _ _ _ => step_ready) (fun w l h => ?_)
    (fun _ _ _ => step_answered_iff) ready_init fun _ hr => absurd hr List.not_mem_nil
  refine ⟨fun p hp => ?_, fun batch hb => ?_⟩
  · rw [landing_of_disabled h] at hp
    cases hp
  · obtain ⟨locked, rfl, hc⟩ := claiming_some hb
    simp [step_governed, Label.governed, step, hc] at h

/-! ### What was served is still answered -/

/-- A visible row was served once. -/
theorem visible_was_served {ls : List Label} (h : run (step_governed env) env.init ls = some w) :
    ∀ r ∈ w.db.assertions, r.visible = true →
    ∃ pre mid w₁, ls = pre ++ mid ∧ run (step_governed env) env.init pre = some w₁ ∧
      run (step_governed env) w₁ mid = some w ∧
      ∃ q ∈ w₁.db.assertions, q.served = true ∧ q.key = r.key := by
  refine run_induction (P := fun ls w => ∀ r ∈ w.db.assertions, r.visible = true →
    ∃ pre mid w₁, ls = pre ++ mid ∧ run (step_governed env) env.init pre = some w₁ ∧
      run (step_governed env) w₁ mid = some w ∧
      ∃ q ∈ w₁.db.assertions, q.served = true ∧ q.key = r.key)
    (fun _ hr => absurd hr List.not_mem_nil) (fun ls u l w hu ih hstep r hr hv => ?_) h
  have hlast : run (step_governed env) u [l] = some w := run_cons.mpr ⟨w, hstep, rfl⟩
  by_cases hlive : r.live = true
  · exact ⟨ls ++ [l], [], w, (List.append_nil _).symm, run_append.mpr ⟨u, hu, hlast⟩, rfl, r, hr,
      served_iff.mpr ⟨hv, hlive⟩, rfl⟩
  · -- a retired row was visible a step before
    have hready : Ready env u := inv_run (fun _ _ _ => step_ready) hu ready_init
    have hgov := (step_of_governed hstep).1
    have hi' := step_wf hgov hready.wf
    by_cases hold : r.id ∈ u.db.ids
    · obtain ⟨q, hq, hid⟩ := List.mem_map.mp hold
      have hrr := (step_evolves hgov hready.wf).row_of_id hi' hq hr hid.symm
      have hqv : q.visible = true := by
        by_contra hqv
        have hqv := Bool.eq_false_iff.mpr hqv
        obtain ⟨hret, hend⟩ := hready.unspoiled q hq
        obtain ⟨s, hs, hqs, hsend⟩ := step_invisible hgov hready.wf hready.slots hq hqv
        obtain rfl := hi'.eq_of_id hs hr (hqs.id.trans hid)
        exact hlive (by simp [AssertionRow.live, hqs.retraction, hret, hsend, hend hqv])
      obtain ⟨pre, mid, w₁, rfl, hpre, hmid, s, hs, hserved, hkey⟩ := ih q hq hqv
      exact ⟨pre, mid ++ [l], w₁, List.append_assoc .., hpre, run_append.mpr ⟨u, hmid, hlast⟩, s, hs,
        hserved, hkey.trans hrr.key.symm⟩
    · rw [(step_new_row hstep hready.wf hr hold).1] at hv
      cases hv

/-- CORRECT: in a run, every key of a `ONE` predicate once served is answered ever after, if and only if
    no step of the run takes a published key its last answer. -/
theorem readers_keep_iff (env : Env G) (ls : List Label) :
    (∀ pre mid post w₁ w₂, ls = (pre ++ mid) ++ post →
      run (step_governed env) env.init pre = some w₁ → run (step_governed env) w₁ mid = some w₂ →
      ∀ r ∈ w₁.db.assertions, env.deps.one r.predicate → r.served = true →
        w₂.db.Answers env.relay.max_attempts r.key) ↔
    Along (step_governed env) (Kept env) env.init ls := by
  rw [← answered_iff_kept, always_iff_prefix]
  constructor
  · rintro h pre post w rfl hrun r hr hone hv
    obtain ⟨pre, mid, w₁, rfl, hpre, hmid, q, hq, hserved, hkey⟩ := visible_was_served hrun r hr hv
    exact hkey ▸ h pre mid post w₁ w rfl hpre hmid q hq (one_of_key hkey hone) hserved
  · rintro h pre mid post w₁ w₂ rfl hpre hmid r hr hone hserved
    have hrun : run (step_governed env) env.init (pre ++ mid) = some w₂ := run_append.mpr ⟨w₁, hpre, hmid⟩
    have hready : Ready env w₁ := inv_run (fun _ _ _ => step_ready) hpre ready_init
    obtain ⟨r', hr', hrr⟩ := (run_evolves (run_of_governed hmid) hready.wf).rows r hr
    have hans := h (pre ++ mid) post w₂ rfl hrun r' hr' (one_of_key hrr.key hone)
      (hrr.visible (served_iff.mp hserved).1)
    exact hrr.key ▸ hans

section Clinical

open GuardMem.Clinical

/-- French is stored and revealed. -/
def published : List Label :=
  [proposal "t" [language "t" "c_1" "French" 10], scored 0 0, applied 0 20] ++
    dispatched 0 (row_id "t" "c_1") 30

/-- German supersedes it, and the graph is out for the five passes that claim German's event. -/
def long_outage : List Label :=
  [proposal "u" [language "u" "c_1" "German" 35], scored 1 0, applied 1 40] ++
    (List.range 5).flatMap fun i =>
      [.claim [] [outbox_id uuid (row_id "u" "c_1")], .load (i + 1), .write (i + 1) (.unavailable false)]

/-- Readers, served French before, have nothing left and nothing to come. -/
theorem nothing_left : ∃ w₁ ∈ run (step_governed Clinical.env) Clinical.env.init published,
    ∃ w₂ ∈ run (step_governed Clinical.env) w₁ long_outage,
      ∃ r ∈ w₁.db.assertions, Clinical.deps.one r.predicate ∧ r.served = true ∧
        ¬ w₂.db.Answers Clinical.env.relay.max_attempts r.key := by
  decide +kernel

end Clinical

end GuardMem
