import GuardMem.Fairness
import GuardMem.GraphAgreement

/-! What the outbox makes of a graph that was lost.

    A claim takes undispatched events only, and the event of a visible row is dispatched. So passes over
    an empty graph bring back what was still pending when the process stopped, and of what was visible
    then, nothing (`edges_rebuilt_iff`). CORRECT exactly where the lost graph held nothing live and no
    event that can still be claimed is of a live row (`rebuilt_iff`); `nothing_rebuilt` is the usual
    case. -/

namespace GuardMem

open Lib.Table Lib.Transition Lib.Sweep

variable {G : Type} {env : Env G}

/-- A row that some claim may take. -/
def Claimable (cfg : RelayConfig) (db : Db) (o : OutboxRow) : Prop :=
  cfg.batch_size ≠ 0 ∧ o ∈ db.outbox ∧ o.pending cfg.max_attempts = true

/-- The assertion of an event that can still be claimed, as a pass would load it. -/
def Pending (cfg : RelayConfig) (db : Db) (a : StoredAssertion) : Prop :=
  ∃ o e, Claimable cfg db o ∧ pending_from_row o = .ok e ∧ load e db = .ok (some a)

/-- A row that is loaded once it is revealed was loadable before. -/
theorem load_hidden {r : AssertionRow} {ps : List Provenance} {a : StoredAssertion} {v : Bool}
    (h : assertion_from_row { r with visible := v } ps = .ok a) :
    ∃ a', assertion_from_row r ps = .ok a' ∧ a'.valid_to = a.valid_to := by
  refine ⟨{ a with visible := r.visible }, ?_, rfl⟩
  unfold assertion_from_row at h ⊢
  split at h
  · cases h
  · next object hobject =>
      dsimp only at hobject h
      rw [hobject]
      dsimp only
      split_ifs at h with hc hr hp hn hi
      obtain rfl := Except.ok.inj h
      rw [dif_pos hc, dif_pos hr, dif_pos hp, dif_pos hn, dif_pos hi]

/-- What passes keep from `start`, the tables as they were when the graph was lost. -/
structure Rebuilding (env : Env G) (start : Db) (s : Db × G) : Prop where
  wf : Wf env.deps.uuid s.1
  wf_start : Wf env.deps.uuid start
  evolves : start.Evolves s.1
  rows : ∀ r' ∈ s.1.assertions, ∃ r ∈ start.assertions, r' = { r with visible := r'.visible }
  provenance : s.1.provenance = start.provenance
  outbox : ∀ o' ∈ s.1.outbox, ∃ o ∈ start.outbox, pending_from_row o' = pending_from_row o ∧
    (o'.pending env.relay.max_attempts = true → o.pending env.relay.max_attempts = true)
  dispatched : ∀ r ∈ s.1.assertions, ∀ o ∈ s.1.outbox, o.assertion_id = r.id →
    (r.visible = true ↔ o.dispatched_at ≠ none)
  edges : ∀ t e, (t, e) ∈ env.store.edges s.2 → (∃ r ∈ s.1.assertions, r.Shows e) ∧
    (∀ q ∈ start.assertions, q.id = e.assertion_id → q.visible = false) ∧
    ∃ a, Pending env.relay start a ∧ a.valid_to = e.valid_to
  shown : ∀ r ∈ s.1.assertions, r.visible = true →
    (∃ q ∈ start.assertions, q.id = r.id ∧ q.visible = true) ∨
      HasEdge env.store s.1 s.2 r.tenant_id r.id

variable {start : Db} {s : Db × G} {e : PendingEvent} {t : Time}

/-- The tables, with the graph empty. -/
theorem rebuilding_start {w : World G} (hi : Wf env.deps.uuid w.db) (hr : Relayed env w) :
    Rebuilding env w.db (w.db, env.store.empty) where
  wf := hi
  wf_start := hi
  evolves := .refl w.db
  rows r hr := ⟨r, hr, rfl⟩
  provenance := rfl
  outbox o ho := ⟨o, ho, rfl, id⟩
  dispatched := hr.dispatched
  edges t e he := by
    rw [env.store.edges_empty] at he
    exact absurd he List.not_mem_nil
  shown r hr hv := Or.inl ⟨r, hr, rfl, hv⟩

/-- What is loaded now was loaded at the start, with the same end. -/
theorem Rebuilding.load (h : Rebuilding env start s) {a : StoredAssertion}
    (hload : load e s.1 = .ok (some a)) : ∃ a', load e start = .ok (some a') ∧ a'.valid_to = a.valid_to := by
  obtain ⟨r', hr', hid, ht, hhyd⟩ := load_some hload
  obtain ⟨r, hr, heq⟩ := h.rows r' hr'
  obtain ⟨ps, hps, hrow⟩ := bind_ok.mp hhyd
  rw [heq] at hid ht hps hrow
  obtain ⟨a', ha', hend⟩ := load_hidden hrow
  refine ⟨a', ?_, hend⟩
  have hselect : SELECT_ASSERTION e.tenant_id e.assertion_id start = some r := by
    cases hfind : SELECT_ASSERTION e.tenant_id e.assertion_id start with
    | none => exact absurd (by simp [← hid, ← ht]) (List.find?_eq_none.mp hfind r hr)
    | some q =>
        have hq := List.find?_some hfind
        rw [Bool.and_eq_true, beq_iff_eq, beq_iff_eq] at hq
        rw [h.wf_start.eq_of_id (List.mem_of_find?_eq_some hfind) hr (hq.1.trans hid.symm)]
  have hcitations : fetch_citations start r.id = .ok ps := by
    rw [← hps, fetch_citations, fetch_citations, SELECT_PROVENANCE, SELECT_PROVENANCE, h.provenance]
  have hhydrate : hydrate start r = .ok a' := bind_ok.mpr ⟨ps, hcitations, ha'⟩
  simp only [GuardMem.load, hselect, hhydrate, bind, Except.bind]

/-- A claim counts attempts, and nothing else. -/
theorem Rebuilding.claim (h : Rebuilding env start s) (batch : List String) :
    Rebuilding env start (CLAIM_OUTBOX batch s.1, s.2) where
  wf := h.wf.claim
  wf_start := h.wf_start
  evolves := h.evolves.trans claim_evolves
  rows := h.rows
  provenance := h.provenance
  outbox o' ho' := by
    obtain ⟨p, hp, rfl⟩ := mem_updateWhere.mp ho'
    obtain ⟨o, ho, hread, hpending⟩ := h.outbox p hp
    refine ⟨o, ho, ?_, fun hafter => hpending ?_⟩
    · split <;> exact hread
    · split at hafter
      · simp only [OutboxRow.pending, Bool.and_eq_true, decide_eq_true_eq] at hafter ⊢
        exact ⟨hafter.1, by omega⟩
      · exact hafter
  dispatched := by
    refine dispatched_keep h.wf h.wf.claim claim_evolves (fun r hr => Or.inr ⟨r, hr, rfl, rfl⟩)
      (fun o ho => ?_) h.dispatched
    obtain ⟨p, hp, rfl⟩ := mem_updateWhere.mp ho
    exact Or.inr ⟨p, hp, by split <;> rfl, by split <;> rfl⟩
  edges := h.edges
  shown r hr hv := (h.shown r hr hv).imp_right fun hedge => hedge.evolves claim_evolves

/-- A graph write adds an edge of a row that was invisible at the start. -/
theorem Rebuilding.upsert (h : Rebuilding env start s) {a : StoredAssertion} {g : G}
    {r : AssertionRow} (hr : r ∈ s.1.assertions) (ha : a.tenant_id = r.tenant_id)
    (hs : r.Shows (.of a)) (hhidden : ∀ q ∈ start.assertions, q.id = r.id → q.visible = false)
    (hpending : ∃ a', Pending env.relay start a' ∧ a'.valid_to = a.valid_to)
    (hu : env.store.upsert_assertion a s.2 = .ok g) : Rebuilding env start (s.1, g) where
  wf := h.wf
  wf_start := h.wf_start
  evolves := h.evolves
  rows := h.rows
  provenance := h.provenance
  outbox := h.outbox
  dispatched := h.dispatched
  edges t e he := by
    rcases env.store.upsert_only hu he with rfl | ⟨hold, -⟩
    · exact ⟨⟨r, hr, hs⟩, fun q hq hid => hhidden q hq (hid.trans hs.assertion_id), hpending⟩
    · exact h.edges t e hold
  shown q hq hv := (h.shown q hq hv).imp_right fun hedge => hedge.upsert h.wf ⟨r, hr, ha, hs⟩ hu

/-- Completing an event whose edge is there reveals a row that has its edge. -/
theorem Rebuilding.complete (h : Rebuilding env start s) (hev : EventOk s.1 e)
    (hedge : HasEdge env.store s.1 s.2 e.tenant_id e.assertion_id) :
    Rebuilding env start (complete e t s.1, s.2) where
  wf := h.wf.complete
  wf_start := h.wf_start
  evolves := h.evolves.trans complete_evolves
  rows r' hr' := by
    obtain ⟨r, hr, rfl⟩ : ∃ r ∈ s.1.assertions, revealed e r = r' := mem_updateWhere.mp hr'
    obtain ⟨q, hq, heq⟩ := h.rows r hr
    refine ⟨q, hq, ?_⟩
    unfold revealed
    split
    · rw [heq]
    · exact heq
  provenance := h.provenance
  outbox o' ho' := by
    obtain ⟨p, hp, rfl⟩ := mem_updateWhere.mp ho'
    obtain ⟨o, ho, hread, hpending⟩ := h.outbox p hp
    refine ⟨o, ho, ?_, fun hafter => hpending ?_⟩
    · split <;> exact hread
    · split at hafter
      · simp [OutboxRow.pending] at hafter
      · exact hafter
  dispatched := dispatched_complete h.wf hev h.dispatched
  edges t e he := by
    obtain ⟨⟨r, hr, hs⟩, hhidden⟩ := h.edges t e he
    obtain ⟨r', hr', hrr⟩ := complete_evolves.rows r hr
    exact ⟨⟨r', hr', hs.step hrr⟩, hhidden⟩
  shown r' hr' hv := by
    obtain ⟨r, hr, rfl⟩ : ∃ r ∈ s.1.assertions, revealed e r = r' := mem_updateWhere.mp hr'
    by_cases hmine : (r.id == e.assertion_id && r.tenant_id == e.tenant_id) = true
    · have hid : r.id = e.assertion_id ∧ r.tenant_id = e.tenant_id := by simpa using hmine
      rw [revealed, if_pos hmine]
      refine Or.inr ?_
      have hkept := hedge.evolves (complete_evolves (e := e) (t := t))
      rw [← hid.1, ← hid.2] at hkept
      exact hkept
    · rw [revealed, if_neg hmine] at hv ⊢
      exact (h.shown r hr hv).imp_right fun hedge => hedge.evolves complete_evolves

/-- Dispatching an event that could be claimed, and whose row was invisible, at the start. -/
theorem Rebuilding.dispatch (h : Rebuilding env start s) (hev : EventOk s.1 e)
    (hclaim : ∃ o, Claimable env.relay start o ∧ pending_from_row o = .ok e)
    (hhidden : ∀ q ∈ start.assertions, q.id = e.assertion_id → q.visible = false)
    (reply : GraphReply) : Rebuilding env start (dispatch env.store reply t e s.1 s.2).2 := by
  unfold GuardMem.dispatch
  split
  · exact h
  · exact h
  · next a hload =>
      obtain ⟨r, hr, hid, ht, hhyd⟩ := load_some hload
      obtain ⟨hs, -, hat⟩ := shows_of_hydrate hhyd
      have hafter : ∀ {x g}, graph_write env.store reply a s.2 = (x, g) →
          Rebuilding env start (s.1, g) := by
        intro x g hw
        rcases graph_write_cases hw with ⟨rfl, -⟩ | hu
        · exact h
        · obtain ⟨o, ho, hread⟩ := hclaim
          obtain ⟨a', hload', hend⟩ := h.load hload
          exact h.upsert hr hat hs (hid ▸ hhidden) ⟨a', ⟨o, e, ho, hread, hload'⟩, hend⟩ hu
      split
      · next g hw =>
          have hu := (graph_write_cases hw).resolve_left fun hne => hne.2 rfl
          exact (hafter hw).complete hev ⟨r, hr, hid, ht, _, ht ▸ hat ▸ env.store.upsert_self hu, hs⟩
      · next g hw => exact hafter hw
      · next g _ hw => exact hafter hw

/-- A pass. What it claims is undispatched, so of a row still invisible. -/
theorem Rebuilding.pass (h : Rebuilding env start s) {p : RelayPass}
    (hc : IsClaim env.relay p.locked p.batch s.1) : Rebuilding env start (p.after env.store s) := by
  by_cases hread : ∀ o ∈ claimed_rows p.batch (CLAIM_OUTBOX p.batch s.1),
      (pending_from_row o).isOk = true
  · have hevents : claimed_events p.batch s.1 = .ok (legible_events p.batch s.1) := collect_isOk hread
    rw [after_legible hread]
    refine (inv_sweep (I := fun u => Rebuilding env start u ∧ s.1.Evolves u.1) ?_
      ⟨h.claim p.batch, claim_evolves⟩).1
    rintro e he u ⟨hu, hevolves⟩
    have hev := claimed_ok h.wf hevents he
    obtain ⟨o, ho, -, hoa, hb, hread⟩ := claimed_events_mem hevents he
    obtain ⟨hopen, hbelow⟩ := hc.below h.wf ho hb
    have hclaim : ∃ o, Claimable env.relay start o ∧ pending_from_row o = .ok e := by
      obtain ⟨p, hp, hsame, hpending⟩ := h.outbox o ho
      refine ⟨p, ⟨?_, hp, hpending (by simp [OutboxRow.pending, hopen, hbelow])⟩, hsame.symm.trans hread⟩
      have hsmall := (List.length_pos_of_mem hb).trans_le hc.small
      omega
    refine ⟨hu.dispatch (hev.evolves hevolves) hclaim (fun q hq hqid => ?_) _,
      hevolves.trans (try_event_evolves p env.store e u)⟩
    obtain ⟨r, hr, hqr⟩ := h.evolves.rows q hq
    refine Bool.eq_false_iff.mpr fun hv => ?_
    exact (h.dispatched r hr o ho (hoa.trans (hqid.symm.trans hqr.id.symm))).mp (hqr.visible hv) hopen
  · rw [after_illegible hread]
    exact h.claim p.batch

theorem run_rebuilding {ps : List RelayPass} {s s' : Db × G}
    (h : run (relay_step env.relay env.store) s (ps.map .pass) = some s')
    (hs : Rebuilding env start s) : Rebuilding env start s' := by
  induction ps generalizing s with
  | nil =>
      obtain rfl := Option.some.inj h
      exact hs
  | cons p ps ih =>
      obtain ⟨u, hu, hrest⟩ := run_cons.mp h
      simp only [relay_step] at hu
      split at hu
      · next hc =>
          obtain rfl := Option.some.inj hu
          exact ih hrest (hs.pass hc)
      · cases hu

/-- The process stops in any reachable state and passes run over an empty graph, as many as may be. Then
    every visible live row of a tenant has its edge if and only if the tenant had no such row when the
    process stopped. -/
theorem edges_rebuilt_iff (env : Env G) {ls : List Label} {w : World G}
    (h : run (step env) env.init ls = some w) {ps : List RelayPass} {s : Db × G}
    (hs : run (relay_step env.relay env.store) (w.db, env.store.empty) (ps.map .pass) = some s)
    (tenant : TenantId) :
    (∀ r ∈ s.1.assertions, r.tenant_id = tenant → r.served = true →
      ∃ e, (tenant, e) ∈ env.store.edges s.2 ∧ r.Shows e) ↔
    ∀ r ∈ w.db.assertions, r.tenant_id = tenant → r.served = false := by
  obtain ⟨hi, hr, -⟩ := run_relayed h
  have hb := run_rebuilding hs (rebuilding_start hi hr)
  constructor
  · intro hall r hrow ht
    refine Bool.eq_false_iff.mpr fun hserved => ?_
    obtain ⟨hv, hlive⟩ := served_iff.mp hserved
    obtain ⟨r', hr', hrr⟩ := hb.evolves.rows r hrow
    obtain ⟨q, hq, heq⟩ := hb.rows r' hr'
    obtain rfl : q = r := hi.eq_of_id hq hrow (by rw [← hrr.id, heq])
    have hlive' : r'.live = true := by
      rw [heq]
      exact hlive
    have ht' : r'.tenant_id = tenant := by
      rw [heq]
      exact ht
    obtain ⟨e, he, hshow⟩ := hall r' hr' ht' (served_iff.mpr ⟨hrr.visible hv, hlive'⟩)
    rw [(hb.edges tenant e he).2.1 q hrow (hrr.id.symm.trans hshow.assertion_id.symm)] at hv
    cases hv
  · intro hnone r' hr' ht hserved
    obtain ⟨hv, hlive⟩ := served_iff.mp hserved
    obtain ⟨r, hrow, heq⟩ := hb.rows r' hr'
    rcases hb.shown r' hr' hv with ⟨q, hq, hid, hqv⟩ | ⟨q, hq, hid, -, e, he, hshow⟩
    · obtain rfl : q = r := hi.eq_of_id hq hrow (by rw [hid, heq])
      rw [heq] at ht hlive
      have hfalse := hnone q hrow ht
      rw [served_iff.mpr ⟨hqv, hlive⟩] at hfalse
      cases hfalse
    · obtain rfl := hb.wf.eq_of_id hq hr' hid
      exact ⟨e, ht ▸ he, hshow⟩

/-! ### Passes until nothing is left to claim -/

variable {cfg : RelayConfig} {store : GraphStore G} {db : Db} {o : OutboxRow} {reply : GraphReply}

/-- A claim that finds no row locked finds nothing. -/
def Drained (cfg : RelayConfig) (db : Db) : Prop := IsClaim cfg [] [] db

instance (cfg : RelayConfig) (db : Db) : Decidable (Drained cfg db) :=
  inferInstanceAs (Decidable (IsClaim cfg [] [] db))

theorem claimable_of_not_drained (h : ¬ Drained cfg db) : ∃ o, Claimable cfg db o := by
  by_contra hnone
  refine h ⟨List.nodup_nil, Nat.zero_le _, fun oid hoid => absurd hoid List.not_mem_nil, fun o ho => ?_⟩
  obtain ⟨hmem, hpending⟩ := List.mem_filter.mp ho
  have hsize : cfg.batch_size = 0 := by
    by_contra hsize
    simp only [Bool.and_eq_true] at hpending
    exact hnone ⟨o, hsize, hmem, hpending.1.1⟩
  exact ⟨hsize.symm, fun o' _ hin => absurd hin List.not_mem_nil⟩

/-- A pass over one event while every other is locked. -/
def lone_pass (o : OutboxRow) (db : Db) (reply : GraphReply) : RelayPass where
  locked := (db.outbox.map OutboxRow.id).filter fun oid => oid ≠ o.id
  batch := [o.id]
  replies _ := reply
  clock _ := 0

theorem lone_pass_claims (h : Claimable cfg db o) :
    IsClaim cfg (lone_pass o db reply).locked (lone_pass o db reply).batch db := by
  obtain ⟨hsize, ho, hpending⟩ := h
  refine ⟨List.nodup_singleton _, Nat.one_le_iff_ne_zero.mpr hsize, fun oid hoid => ?_, fun q hq => ?_⟩
  · obtain rfl := List.mem_singleton.mp hoid
    exact ⟨by simp [lone_pass], o, ho, rfl, hpending⟩
  · obtain ⟨hmem, hfree⟩ := List.mem_filter.mp hq
    simp only [lone_pass, Bool.and_eq_true, Bool.not_eq_true', List.contains_eq_mem, List.mem_filter,
      List.mem_singleton, decide_eq_false_iff_not, decide_eq_true_eq] at hfree
    exact absurd ⟨List.mem_map_of_mem hmem, hfree.2⟩ hfree.1.2

/-- While the graph cannot be reached, a pass uses an attempt up and does nothing else. -/
theorem after_unreachable {s : Db × G} :
    (lone_pass o s.1 (.unavailable false)).after store s = (CLAIM_OUTBOX [o.id] s.1, s.2) := by
  by_cases hread : ∀ q ∈ claimed_rows [o.id] (CLAIM_OUTBOX [o.id] s.1), (pending_from_row q).isOk = true
  · rw [after_legible hread]
    refine inv_sweep (I := fun u => u = (CLAIM_OUTBOX [o.id] s.1, s.2)) ?_ rfl
    rintro e - u rfl
    unfold RelayPass.try_event dispatch
    split <;> rfl
  · exact after_illegible hread

/-- The attempts the events have left. -/
def attempts_left (cfg : RelayConfig) (db : Db) : ℕ :=
  (db.outbox.map fun o => cfg.max_attempts - o.attempts).sum

theorem attempts_left_claim (h : Claimable cfg db o) :
    attempts_left cfg (CLAIM_OUTBOX [o.id] db) < attempts_left cfg db := by
  obtain ⟨-, ho, hpending⟩ := h
  simp only [OutboxRow.pending, Bool.and_eq_true, decide_eq_true_eq] at hpending
  rw [attempts_left, attempts_left, CLAIM_OUTBOX, updateWhere, List.map_map]
  refine List.sum_lt_sum _ _ (fun q _ => ?_) ⟨o, ho, ?_⟩
  · dsimp only [Function.comp]
    split
    · exact Nat.sub_le_sub_left (Nat.le_succ _) _
    · exact le_rfl
  · simp only [Function.comp, List.contains_cons, beq_self_eq_true, Bool.true_or, if_true]
    omega

/-- From any state passes may run until nothing is left to claim, and find the graph out of reach. -/
theorem exists_drained (cfg : RelayConfig) (store : GraphStore G) (s : Db × G) :
    ∃ (ps : List RelayPass) (t : Db × G), run (relay_step cfg store) s (ps.map .pass) = some t ∧
      Drained cfg t.1 ∧ t.2 = s.2 := by
  induction hn : attempts_left cfg s.1 using Nat.strong_induction_on generalizing s with
  | _ n ih =>
      by_cases hdrained : Drained cfg s.1
      · exact ⟨[], s, rfl, hdrained, rfl⟩
      · obtain ⟨o, ho⟩ := claimable_of_not_drained hdrained
        have hstep : relay_step cfg store s (.pass (lone_pass o s.1 (.unavailable false))) =
            some (CLAIM_OUTBOX [o.id] s.1, s.2) :=
          (if_pos (lone_pass_claims ho)).trans (congrArg some after_unreachable)
        obtain ⟨ps, t, hrun, hempty, hgraph⟩ :=
          ih _ (hn ▸ attempts_left_claim ho) (CLAIM_OUTBOX [o.id] s.1, s.2) rfl
        exact ⟨lone_pass o s.1 (.unavailable false) :: ps, t, run_cons.mpr ⟨_, hstep, hrun⟩, hempty, hgraph⟩

/-! ### What is there to come back -/

/-- Neither the lost graph nor an event that can still be claimed is of anything live. -/
structure Lifeless (env : Env G) (w : World G) : Prop where
  edges : ∀ t e, (t, e) ∈ env.store.edges w.graph → e.valid_to ≠ none
  events : ∀ a, Pending env.relay w.db a → a.valid_to ≠ none

/-- The outbox has rebuilt the graph: each visible live row has its edge, and the reads answer as the
    lost graph did. -/
structure Rebuilt (env : Env G) (w : World G) (s : Db × G) : Prop where
  edges : ∀ r ∈ s.1.assertions, r.served = true →
    ∃ e, (r.tenant_id, e) ∈ env.store.edges s.2 ∧ r.Shows e
  degree : ∀ entity, env.store.degree entity s.2 = env.store.degree entity w.graph
  neighbors : ∀ entity hops, env.store.neighbors entity hops s.2 = env.store.neighbors entity hops w.graph

/-- A graph without live edges answers nothing. -/
theorem silent {g : G} (h : ∀ t e, (t, e) ∈ store.edges g → e.valid_to ≠ none) :
    (∀ entity, store.degree entity g = 0) ∧ ∀ entity hops, store.neighbors entity hops g = [] := by
  refine ⟨fun entity => ?_, fun entity hops => List.eq_nil_iff_forall_not_mem.mpr fun e he => ?_⟩
  · rw [store.degree_eq]
    refine List.sum_eq_zero fun n hn => ?_
    obtain ⟨te, hte, rfl⟩ := List.mem_map.mp hn
    exact store.counts_retired (h te.1 te.2 hte)
  · obtain ⟨⟨t, ht⟩, hlive⟩ := store.neighbors_live he
    exact h t e ht hlive

/-- With the graph in reach, a pass over a pending assertion writes its edge. -/
theorem after_answers {s : Db × G} {a : StoredAssertion} {g : G} {e : PendingEvent}
    (hkeyed : (s.1.outbox.map OutboxRow.id).Nodup) (ho : o ∈ s.1.outbox) (hread : pending_from_row o = .ok e)
    (hload : load e s.1 = .ok (some a)) (hu : store.upsert_assertion a s.2 = .ok g) :
    ((lone_pass o s.1 .answers).after store s).2 = g := by
  have hrows : claimed_rows [o.id] (CLAIM_OUTBOX [o.id] s.1) = [{ o with attempts := o.attempts + 1 }] := by
    have hfind : (CLAIM_OUTBOX [o.id] s.1).outbox.find? (fun q => q.id == o.id) =
        some { o with attempts := o.attempts + 1 } := by
      have hmem : { o with attempts := o.attempts + 1 } ∈ (CLAIM_OUTBOX [o.id] s.1).outbox :=
        mem_updateWhere.mpr ⟨o, ho, by simp⟩
      cases hq : (CLAIM_OUTBOX [o.id] s.1).outbox.find? fun q => q.id == o.id with
      | none => exact absurd (by simp) (List.find?_eq_none.mp hq _ hmem)
      | some q =>
          have hid : q.id = o.id := by simpa using List.find?_some hq
          have hclaimed : ((CLAIM_OUTBOX [o.id] s.1).outbox.map OutboxRow.id).Nodup := by
            rw [claim_ids]
            exact hkeyed
          exact congrArg some (eq_of_key OutboxRow.id hclaimed (List.mem_of_find?_eq_some hq) hmem hid)
    simp only [claimed_rows, List.filterMap_cons, hfind, List.filterMap_nil]
  have hevent : pending_from_row { o with attempts := o.attempts + 1 } = .ok e := hread
  have hlegible : ∀ q ∈ claimed_rows [o.id] (CLAIM_OUTBOX [o.id] s.1), (pending_from_row q).isOk = true := by
    intro q hq
    obtain rfl := List.mem_singleton.mp (hrows ▸ hq)
    rw [hevent]
    rfl
  have hevents : legible_events (lone_pass o s.1 .answers).batch s.1 = [e] := by
    rw [legible_events, lone_pass, hrows]
    simp only [List.filterMap_cons, hevent, Except.toOption, List.filterMap_nil]
  have hclaimed : load e (CLAIM_OUTBOX [o.id] s.1) = .ok (some a) := hload
  rw [after_legible hlegible, hevents]
  simp only [sweep, RelayPass.try_event, dispatch, lone_pass, hclaimed, graph_write, hu]

/-- An edge is counted at its subject while it is live, and an empty graph takes any assertion. -/
structure InProcess (store : GraphStore G) : Prop where
  counted : ∀ e : Edge, e.valid_to = none → store.counts e.subject_id e ≠ 0
  accepts : ∀ a, ∃ g, store.upsert_assertion a store.empty = .ok g

theorem NetworkX.store_inProcess (dumps : Json → String) : InProcess (NetworkX.store dumps) where
  counted e he := by simp [NetworkX.store, NetworkX.counts, he]
  accepts a := by
    have hok : NetworkX.upsert_assertion dumps a ⟨[], []⟩ = .ok (NetworkX.materialise dumps a ⟨[], []⟩) :=
      NetworkX.upsert_ok.mpr ⟨(fun held h => by cases h), rfl⟩
    exact ⟨⟨_, NetworkX.Kept.empty.upsert hok⟩,
      (@NetworkX.upsertKept_ok dumps a ⟨⟨[], []⟩, NetworkX.Kept.empty⟩ _).mpr hok⟩

/-- A live edge is counted. -/
theorem InProcess.degree_ne (h : InProcess store) {g : G} {t : TenantId} {e : Edge} (he : (t, e) ∈ store.edges g)
    (hlive : e.valid_to = none) : store.degree e.subject_id g ≠ 0 := by
  rw [store.degree_eq]
  intro hzero
  exact h.counted e hlive (List.sum_eq_zero_iff.mp hzero _ (List.mem_map_of_mem he))

/-- Passes from a graph of nothing live and nothing live to come rebuild all there was. -/
theorem Lifeless.rebuilt {w : World G} (h : Lifeless env w) (hr : Relayed env w)
    (hb : Rebuilding env w.db s) : Rebuilt env w s := by
  have hempty : ∀ t e, (t, e) ∈ env.store.edges s.2 → e.valid_to ≠ none := by
    intro t e he
    obtain ⟨-, -, a, ha, hend⟩ := hb.edges t e he
    exact hend ▸ h.events a ha
  obtain ⟨hdegree, hneighbors⟩ := silent h.edges
  obtain ⟨hdegree', hneighbors'⟩ := silent hempty
  refine ⟨fun r' hr' hserved => ?_, fun entity => (hdegree' entity).trans (hdegree entity).symm,
    fun entity hops => (hneighbors' entity hops).trans (hneighbors entity hops).symm⟩
  obtain ⟨hv, hlive⟩ := served_iff.mp hserved
  rcases hb.shown r' hr' hv with ⟨q, hq, hid, hqv⟩ | ⟨q, hq, hid, -, e, he, hshow⟩
  · -- what was visible had a live edge in the lost graph
    obtain ⟨r, hrow, heq⟩ := hb.rows r' hr'
    obtain rfl : q = r := hb.wf_start.eq_of_id hq hrow (by rw [hid, heq])
    obtain ⟨p, hp, hpid, -, e, he, hshow⟩ := hr.visible q hq hqv
    obtain rfl := hb.wf_start.eq_of_id hp hq hpid
    have hend : p.valid_to = none := by
      rw [heq, AssertionRow.live] at hlive
      simpa using (Bool.and_eq_true_iff.mp hlive).1
    exact absurd (hshow.live hend) (h.edges _ e he)
  · obtain rfl := hb.wf.eq_of_id hq hr' hid
    exact ⟨e, he, hshow⟩

/-- CORRECT: the process stops in any reachable state, and passes run over an empty graph until nothing is
    left to claim, however the graph answers them. They rebuild what was lost, the edges of all that is
    visible and live and with them every degree and every walk, if and only if the lost graph held no
    live edge and no event that can still be claimed is of a live row. -/
theorem rebuilt_iff {dumps : Json → String} (env : Env { g : NetworkX.MultiDiGraph // NetworkX.Kept dumps g })
    (henv : env.store = NetworkX.store dumps) {ls : List Label}
    {w : World { g : NetworkX.MultiDiGraph // NetworkX.Kept dumps g }}
    (h : run (step env) env.init ls = some w) :
    (∀ (ps : List RelayPass) (s : Db × { g : NetworkX.MultiDiGraph // NetworkX.Kept dumps g }),
      run (relay_step env.relay env.store) (w.db, env.store.empty) (ps.map .pass) = some s →
        Drained env.relay s.1 → Rebuilt env w s) ↔ Lifeless env w := by
  obtain ⟨hi, hr, -⟩ := run_relayed h
  have hstore : InProcess env.store := henv ▸ NetworkX.store_inProcess dumps
  constructor
  · intro hall
    -- the graph may stay out of reach until the attempts are used up
    obtain ⟨ps, s, hs, hdrained, hempty⟩ := exists_drained env.relay env.store (w.db, env.store.empty)
    have hdegree : ∀ entity, env.store.degree entity w.graph = 0 := by
      intro entity
      rw [← (hall ps s hs hdrained).degree entity, hempty]
      exact (silent fun t e he => by simp [env.store.edges_empty] at he).1 entity
    refine ⟨fun t e he hlive => hstore.degree_ne he hlive (hdegree _), ?_⟩
    rintro a ⟨o, e, ho, hread, hload⟩ hlive
    -- or answer one event and be out of reach for the others
    obtain ⟨g, hu⟩ := hstore.accepts a
    have hafter := @after_answers _ env.store o (w.db, env.store.empty) a g e hi.outbox_nodup ho.2.1 hread hload hu
    obtain ⟨qs, t, ht, hdrained', hgraph⟩ := exists_drained env.relay env.store
      ((lone_pass o w.db .answers).after env.store (w.db, env.store.empty))
    have hrun : run (relay_step env.relay env.store) (w.db, env.store.empty)
        ((lone_pass o w.db .answers :: qs).map .pass) = some t :=
      run_cons.mpr ⟨_, if_pos (lone_pass_claims ho), ht⟩
    have hedge : (a.tenant_id, Edge.of a) ∈ env.store.edges t.2 := by
      rw [hgraph, hafter]
      exact env.store.upsert_self hu
    exact hstore.degree_ne hedge hlive (((hall _ t hrun hdrained').degree _).trans (hdegree _))
  · exact fun hlifeless ps s hs _ => hlifeless.rebuilt hr (run_rebuilding hs (rebuilding_start hi hr))

section Clinical

open GuardMem.Clinical

/-- A pass that finds nothing to claim. -/
def idle_pass : RelayPass := ⟨[], [], fun _ => .answers, fun _ => 60⟩

/-- French is stored, revealed and in the graph; after a restart the relay claims nothing, and the
    graph stays empty. -/
theorem nothing_rebuilt : ∃ w ∈ run (step Clinical.env) Clinical.env.init published,
    ∃ s ∈ run (relay_step Clinical.env.relay Clinical.env.store) (w.db, Clinical.env.store.empty)
        [.pass idle_pass],
      Drained Clinical.env.relay s.1 ∧
        (∃ r ∈ s.1.assertions, r.served = true) ∧ Clinical.env.store.edges s.2 = [] ∧
        Clinical.env.store.degree patient w.graph = 1 ∧
        Clinical.env.store.degree patient s.2 = 0 := by
  decide +kernel

/-- French is stored, and the graph is out for the five passes that claim its event. -/
def given_up : List Label :=
  [proposal "t" [language "t" "c_1" "French" 10], scored 0 0, applied 0 20] ++
    (List.range 5).flatMap fun i =>
      [.claim [] [outbox_id uuid (row_id "t" "c_1")], .load i, .write i (.unavailable false)]

/-- Nothing of it was in the graph, and nothing comes back. -/
theorem given_up_rebuilt : ∃ w, run (step Clinical.env) Clinical.env.init given_up = some w ∧
    w.db.assertions ≠ [] ∧ ∀ (ps : List RelayPass) (s : Db × Graph),
      run (relay_step Clinical.env.relay Clinical.env.store) (w.db, Clinical.env.store.empty)
        (ps.map .pass) = some s → Drained Clinical.env.relay s.1 → Rebuilt Clinical.env w s := by
  have hrun : ∃ w ∈ run (step Clinical.env) Clinical.env.init given_up, w.db.assertions ≠ [] ∧
      Clinical.env.store.edges w.graph = [] ∧
        ∀ o ∈ w.db.outbox, o.pending Clinical.env.relay.max_attempts = false := by
    decide +kernel
  obtain ⟨w, hw, hne, hedges, hpending⟩ := hrun
  have hlifeless : Lifeless Clinical.env w := by
    refine ⟨fun t e he => by simp [hedges] at he, ?_⟩
    rintro a ⟨o, e, ⟨-, ho, hopen⟩, -⟩
    rw [hpending o ho] at hopen
    cases hopen
  exact ⟨w, hw, hne, (rebuilt_iff Clinical.env rfl hw).mpr hlifeless⟩

end Clinical

end GuardMem
