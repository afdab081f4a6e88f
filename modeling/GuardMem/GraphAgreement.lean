import GuardMem.Readers

/-! Whether the graph and the store agree on what is believed.

    A supersession is a write to Postgres alone: the only event it enqueues is the successor's, and the
    incumbent's was dispatched long ago. CORRECT while no apply supersedes (`graph_agrees`). One that
    does leaves the incumbent's live edge behind for good, unless a pass happens to hold the incumbent's
    event (`superseded_edge_stays`), and the graph's reads go on returning it (`still_french`). -/

namespace GuardMem

open Lib.Table Lib.Transition

variable {G : Type} {env : Env G} {w w' : World G} {l : Label}

/-- No event is left to dispatch. -/
def Db.Quiet (db : Db) : Prop := ∀ o ∈ db.outbox, o.dispatched_at ≠ none

instance (db : Db) : Decidable db.Quiet := inferInstanceAs (Decidable (∀ o ∈ db.outbox, _))

/-- The assertion is visible, live and not retracted. -/
def Db.believes (db : Db) (aid : AssertionId) : Bool :=
  db.assertions.any fun r => r.id == aid && r.served

theorem believes_iff {db : Db} {aid : AssertionId} :
    db.believes aid = true ↔ ∃ r ∈ db.assertions, r.id = aid ∧ r.served = true := by
  simp [Db.believes]

/-- The graph's live edges are those of what is believed, and its reads return and count no other. -/
structure Agrees (store : GraphStore G) (db : Db) (g : G) : Prop where
  edges : ∀ aid, (∃ t e, (t, e) ∈ store.edges g ∧ e.valid_to = none ∧ e.assertion_id = aid) ↔
    db.believes aid = true
  neighbors : ∀ entity hops, ∀ e ∈ store.neighbors entity hops g, db.believes e.assertion_id = true
  degree : ∀ entity, store.degree entity g =
    (((store.edges g).filter fun te => db.believes te.2.assertion_id).map
      fun te => store.counts entity te.2).sum

/-- The step lands no apply that supersedes. -/
def Additive (env : Env G) (w : World G) (l : Label) : Prop :=
  ∀ p ∈ landing env w l, retires p.governed = none

instance (w : World G) (l : Label) : Decidable (Additive env w l) :=
  inferInstanceAs (Decidable (∀ p ∈ landing env w l, _))

/-- No row has been retired. -/
def Unsuperseded (w : World G) : Prop := ∀ r ∈ w.db.assertions, r.valid_to = none

theorem step_unsuperseded (h : step_governed env w l = some w') (hw : Ready env w)
    (ha : Additive env w l) (hu : Unsuperseded w) : Unsuperseded w' := by
  have hstep := (step_of_governed h).1
  intro r' hr'
  by_cases hold : r'.id ∈ w.db.ids
  · obtain ⟨r, hr, hid⟩ := List.mem_map.mp hold
    obtain ⟨q, hq, hrq, hend⟩ := step_keeps_end hstep hw.wf hr fun p hp hret => by
      rw [ha p hp] at hret
      cases hret
    obtain rfl := (step_wf hstep hw.wf).eq_of_id hq hr' (hrq.id.trans hid)
    exact hend.trans (hu r hr)
  · exact (step_new_row h hw.wf hr' hold).2.1

/-- With every event dispatched and no row retired, the graph is what the store believes. -/
theorem Ready.agrees (hw : Ready env w) (hu : Unsuperseded w) (hq : w.db.Quiet) :
    Agrees env.store w.db w.graph := by
  have believed : ∀ r ∈ w.db.assertions, w.db.believes r.id = true := by
    intro r hr
    obtain ⟨o, ho, hoa⟩ := hw.wf.queued r hr
    have hv := (hw.relayed.dispatched r hr o ho hoa).mpr (hq o ho)
    refine believes_iff.mpr ⟨r, hr, rfl, served_iff.mpr ⟨hv, ?_⟩⟩
    simp [AssertionRow.live, hu r hr, (hw.unspoiled r hr).1]
  have shown : ∀ t e, (t, e) ∈ env.store.edges w.graph → w.db.believes e.assertion_id = true := by
    intro t e he
    obtain ⟨r, hr, hs⟩ := hw.relayed.edges t e he
    exact hs.assertion_id ▸ believed r hr
  refine ⟨fun aid => ⟨?_, ?_⟩, ?_, ?_⟩
  · rintro ⟨t, e, he, -, rfl⟩
    exact shown t e he
  · intro hb
    obtain ⟨r, hr, rfl, hserved⟩ := believes_iff.mp hb
    obtain ⟨q, hq, hid, -, e, he, hs⟩ := hw.relayed.visible r hr (served_iff.mp hserved).1
    exact ⟨_, e, he, hs.live (hu q hq), hs.assertion_id.trans hid⟩
  · intro entity hops e he
    obtain ⟨⟨t, ht⟩, -⟩ := env.store.neighbors_live he
    exact shown t e ht
  · intro entity
    rw [env.store.degree_eq, List.filter_eq_self.mpr fun te hte => shown te.1 te.2 hte]

/-- CORRECT: in a run that supersedes nothing, graph and store agree whenever no event is pending. -/
theorem graph_agrees (env : Env G) (ls : List Label)
    (h : Along (step_governed env) (Additive env) env.init ls) :
    Always (step_governed env) (fun w => w.db.Quiet → Agrees env.store w.db w.graph)
      env.init ls := by
  have hinv := always_of_along (I := fun w => Ready env w ∧ Unsuperseded w)
    (fun _ _ _ hstep ha hw => ⟨step_ready hstep hw.1, step_unsuperseded hstep hw.1 ha hw.2⟩) h
    ⟨ready_init, fun _ hr => absurd hr List.not_mem_nil⟩
  exact hinv.mono fun w hw => hw.1.agrees hw.2

/-! ### What a supersession leaves in the graph -/

/-- A retired row with a live edge, and nobody about to rewrite it. -/
structure Left (env : Env G) (w : World G) (aid : AssertionId) : Prop where
  edge : ∃ t e, (t, e) ∈ env.store.edges w.graph ∧ e.valid_to = none ∧ e.assertion_id = aid
  unheld : ∀ y ∈ w.passes, ∀ e, y.Holds e → e.assertion_id ≠ aid
  closed : ∀ o ∈ w.db.outbox, o.assertion_id = aid → o.dispatched_at ≠ none

theorem step_left (h : step env w l = some w') (hi : Wf env.deps.uuid w.db) (hr : Relayed env w)
    {r : AssertionRow} (hrow : r ∈ w.db.assertions) (hleft : Left env w r.id) :
    Left env w' r.id := by
  have he := step_evolves h hi
  refine ⟨?_, ?_, ?_⟩
  · obtain ⟨t, e, hmem, hlive, hid⟩ := hleft.edge
    rcases step_graph h hi hr with hsame | ⟨a, hu, ⟨y, hy, e', hs⟩, -⟩
    · exact ⟨t, e, hsame ▸ hmem, hlive, hid⟩
    · refine ⟨t, e, env.store.upsert_keep hu hmem fun ha => ?_, hlive, hid⟩
      obtain ⟨-, q, -, hqid, -, -, hqs⟩ := (hr.passes y hy).loaded e' a hs
      exact hleft.unheld y hy e' (Or.inr (Or.inl ⟨a, hs⟩))
        (hqid.symm.trans (hqs.assertion_id.symm.trans (ha.symm.trans hid)))
  · intro y hy e hh haid
    rcases step_holds h hy hh with ⟨x, hx, hxe⟩ | ⟨_, batch, events, hc, -, hev, hmem⟩
    · exact hleft.unheld x hx e hxe haid
    · obtain ⟨o, ho, -, hoa, hb, -⟩ := claimed_events_mem hev hmem
      exact hleft.closed o ho (hoa.trans haid) (hc.below hi ho hb).1
  · intro o' ho' hoa'
    obtain ⟨o, ho, hoa⟩ := hi.queued r hrow
    have hoo := he.event_of_id (step_wf h hi) ho ho' (hoa'.trans hoa.symm)
    rw [hoo.dispatched (hleft.closed o ho hoa)]
    exact hleft.closed o ho hoa

/-- CORRECT: an apply that supersedes while no pass holds the incumbent's event leaves the incumbent a
    live edge in every later state, so graph and store never agree again. -/
theorem superseded_edge_stays {ls ms : List Label} {u : World G} {p : Landing} {old : AssertionId}
    (hrun : run (step_governed env) env.init ls = some w) (hp : landing env w l = some p)
    (hret : retires p.governed = some old)
    (hunheld : ∀ y ∈ w.passes, ∀ e, y.Holds e → e.assertion_id ≠ old)
    (hstep : step_governed env w l = some w') (hms : run (step_governed env) w' ms = some u) :
    (∃ t e, (t, e) ∈ env.store.edges u.graph ∧ e.valid_to = none ∧ e.assertion_id = old) ∧
      u.db.believes old = false := by
  have hw : Ready env w := inv_run (fun _ _ _ => step_ready) hrun ready_init
  have hgov := (step_of_governed hstep).1
  obtain ⟨d, x, rest, rfl, -, -, -, -, hl⟩ := landing_some hp
  obtain ⟨-, r, hr, hs, -⟩ := hl.target old hret
  obtain ⟨rfl, hend, -⟩ := supersedes_iff.mp hs
  obtain ⟨-, q, hq, hqid, -, hv⟩ := (hw.slots.landing hp).2 r.id hret
  obtain rfl := hw.wf.eq_of_id hq hr hqid
  -- before: the incumbent's edge is live, its event closed and in no pass's hands
  have hbefore : Left env w q.id := by
    obtain ⟨s, hsr, hsid, -, e, he, hshow⟩ := hw.relayed.visible q hr hv
    obtain rfl := hw.wf.eq_of_id hsr hr hsid
    exact ⟨⟨_, e, he, hshow.live hend, hshow.assertion_id⟩, hunheld,
      fun o ho hoa => (hw.relayed.dispatched s hr o ho hoa).mp hv⟩
  have hretired : ∃ r' ∈ w'.db.assertions, r'.id = q.id ∧ r'.valid_to ≠ none := by
    rw [(step_landing hp hw.wf hgov).1]
    have htaken := hl.takes hw.wf hr hret
    exact ⟨_, (mem_landed hw.wf hl).mpr (.retired hr hret hend (supersedes_iff.mp htaken).2.2), rfl,
      by simp [AssertionRow.retire]⟩
  -- after: so it stays
  have hafter := inv_run
    (I := fun v => Ready env v ∧ Left env v q.id ∧ ∃ r ∈ v.db.assertions, r.id = q.id ∧ r.valid_to ≠ none)
    (fun v k v' (hk : step_governed env v k = some v') hkept => by
      obtain ⟨hv, hleft, r, hrow, hid, hne⟩ := hkept
      have hkstep := (step_of_governed hk).1
      obtain ⟨r', hr', hrr⟩ := (step_evolves hkstep hv.wf).rows r hrow
      refine ⟨step_ready hk hv, ?_, r', hr', hrr.id.trans hid, (hrr.retired hne).1 ▸ hne⟩
      exact hid ▸ step_left hkstep hv.wf hv.relayed hrow (hid.symm ▸ hleft)) hms
    ⟨step_ready hstep hw, step_left hgov hw.wf hw.relayed hr hbefore, hretired⟩
  obtain ⟨hu, hleft, r', hr', hid', hne'⟩ := hafter
  refine ⟨hleft.edge, Bool.eq_false_iff.mpr fun hb => ?_⟩
  obtain ⟨s, hs', hsid, hserved⟩ := believes_iff.mp hb
  obtain rfl := hu.wf.eq_of_id hs' hr' (hsid.trans hid'.symm)
  simp only [served_iff, AssertionRow.live, Bool.and_eq_true, Option.isNone_iff_eq_none] at hserved
  exact hne' hserved.2.1

section Clinical

open GuardMem.Clinical

/-- The patient's entity. -/
def patient : EntityId := derive_entity_id Clinical.deps "clinic" "patient:1"

/-- French is superseded by German, everything is dispatched, and the graph still says French too. -/
theorem still_french : ¬ Always (step_governed Clinical.env)
    (fun w => w.db.Quiet → Agrees Clinical.env.store w.db w.graph) Clinical.env.init in_turn := by
  have hrun : ∃ w ∈ run (step_governed Clinical.env) Clinical.env.init in_turn, w.db.Quiet ∧
      ∃ e ∈ Clinical.env.store.neighbors patient 1 w.graph,
        w.db.believes e.assertion_id = false := by
    decide +kernel
  obtain ⟨w, hw, hq, e, he, hb⟩ := hrun
  intro h
  rw [(h.last hw hq).neighbors patient 1 e he] at hb
  cases hb

/-- With French alone, they agree. -/
theorem french_agrees : ∃ w, run (step_governed Clinical.env) Clinical.env.init published = some w ∧
    Agrees Clinical.env.store w.db w.graph := by
  have hrun : ∃ w ∈ run (step_governed Clinical.env) Clinical.env.init published, w.db.Quiet := by
    decide +kernel
  obtain ⟨w, hw, hq⟩ := hrun
  exact ⟨w, hw, (graph_agrees Clinical.env published (by decide +kernel)).last hw hq⟩

end Clinical

end GuardMem
