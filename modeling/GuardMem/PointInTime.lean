import GuardMem.GraphAgreement
import GuardMem.History
import GuardMem.Lib.Timeline
import GuardMem.Memory.Queries

/-! What a point-in-time read returns of a supersession chain.

    A retired row ends at the applier's clock and its successor starts at the citation's `captured_at`.
    CORRECT: in a history without redelivery the rows of a `ONE` or `ONE_PER_TIME` chain abut, and a
    read as of any instant is unambiguous, exactly when every superseding apply runs at the instant its
    new row starts (`point_in_time_iff`). The clock is never that instant but by coincidence
    (`both_languages`). -/

namespace GuardMem

open Lib.Pointer Lib.Timeline Lib.Transition

variable {G : Type} {env : Env G} {w w' : World G} {l : Label} {cast : UuidCast} {deps : Deps} {db : Db}
  {r r' : AssertionRow}

/-- The predicate holds one value, or one at a time. -/
def Deps.timed (deps : Deps) (predicate : String) : Prop :=
  ∃ spec ∈ deps.ontology predicate, spec.cardinality = .ONE ∨ spec.cardinality = .ONE_PER_TIME

instance (deps : Deps) (predicate : String) : Decidable (deps.timed predicate) :=
  inferInstanceAs (Decidable (∃ spec ∈ deps.ontology predicate, _))

/-- The row that superseded this one. -/
def Db.successor (db : Db) (r : AssertionRow) : Option AssertionRow :=
  r.superseded_by.bind fun s => db.assertions.find? fun q => q.id == s

/-- The filters find this row's subject and predicate. -/
def Finds (cast : UuidCast) (filters : List (String × String)) (r : AssertionRow) : Prop :=
  ∀ f ∈ filters, (f.1 = "subject_id" ∧ cast f.2 = some r.subject_id) ∨
    (f.1 = "predicate" ∧ f.2 = r.predicate)

/-- Reads as of any instant are unambiguous: the rows of a chain abut, a read returns at most one of
    them, and from the chain's first `valid_from` on a read that finds its key and has room returns
    one, once the relay has caught up. -/
structure PointInTime (deps : Deps) (cast : UuidCast) (db : Db) : Prop where
  abuts : ∀ r ∈ db.assertions, deps.timed r.predicate → ∀ u ∈ r.valid_to,
    ∃ q ∈ db.successor r, u = q.valid_from
  at_most_one : ∀ first ∈ db.assertions, deps.timed first.predicate →
    ∀ tenant ns vector k filters t hits,
      PgVectorStore.search cast deps tenant ns vector k filters (some t) db = .ok hits →
      ∀ a b, Leads db.successor first a → Leads db.successor first b →
        a.id ∈ hits.map (fun hit => hit.assertion.assertion_id) →
        b.id ∈ hits.map (fun hit => hit.assertion.assertion_id) → a = b
  exactly_one : db.Quiet → ∀ first ∈ db.assertions, deps.timed first.predicate →
    ∀ vector k filters t, Finds cast filters first → db.assertions.length ≤ k → first.valid_from ≤ t →
      ∃ hits, PgVectorStore.search cast deps first.tenant_id first.namespace vector k filters (some t) db =
        .ok hits ∧ ∃ a, Leads db.successor first a ∧
          a.id ∈ hits.map fun hit => hit.assertion.assertion_id

/-- A landing apply that supersedes under such a predicate runs at the instant its new row starts. -/
def Landing.Dated (deps : Deps) (p : Landing) : Prop :=
  deps.timed p.governed.candidate.predicate → retires p.governed ≠ none →
    p.clock.applied_at = (fresh deps.uuid p.clock.recorded_at p.governed).valid_from

def Dated (env : Env G) (w : World G) (l : Label) : Prop := ∀ p ∈ landing env w l, p.Dated env.deps

instance (w : World G) (l : Label) : Decidable (Dated env w l) :=
  inferInstanceAs (Decidable (∀ p ∈ landing env w l, _ → _ → _))

/-- What a landing apply retires has the key it writes under. -/
theorem retired_key {p : Landing} (hs : SlotsOk w) (hi : Wf env.deps.uuid w.db)
    (hp : landing env w l = some p) (hr : r ∈ w.db.assertions) (hret : retires p.governed = some r.id) :
    r.key = p.governed.key p.tenant := by
  obtain ⟨-, q, hq, hid, hkey, -⟩ := (hs.landing hp).2 r.id hret
  obtain rfl := hi.eq_of_id hq hr hid
  exact hkey

/-! ### Threads of supersession -/

/-- Every row can be read back, ends when it is superseded, by a row of its own key, and never comes
    round to itself. -/
structure Threaded (db : Db) : Prop where
  read : ∀ r ∈ db.assertions, r.embedding.isSome = true ∧ (ObjectValue.ofJson r.object_json).isSome = true
  ended : ∀ r ∈ db.assertions, r.valid_to = none ↔ r.superseded_by = none
  linked : ∀ r ∈ db.assertions, ∀ s ∈ r.superseded_by, ∃ q ∈ db.assertions, q.id = s ∧ q.key = r.key
  acyclic : Acyclic db.next

theorem threaded_init : Threaded env.init.db :=
  ⟨fun _ hr => absurd hr List.not_mem_nil, fun _ hr => absurd hr List.not_mem_nil,
    fun _ hr => absurd hr List.not_mem_nil, acyclic_init⟩

/-- Each retired row of such a predicate ends where its successor starts. -/
def Abuts (deps : Deps) (db : Db) : Prop :=
  ∀ r ∈ db.assertions, deps.timed r.predicate → ∀ u ∈ r.valid_to,
    ∃ q ∈ db.assertions, r.superseded_by = some q.id ∧ u = q.valid_from

/-- A new id leads nowhere yet. -/
theorem forward_of_fresh (h : Fresh env w l) : Forward env w l := by
  intro p hp old hret hleads
  obtain ⟨-, -, -, -, -, -, -, -, hl⟩ := landing_some hp
  have hnone : w.db.next (assertion_id env.deps.uuid p.governed) = none := by
    rw [Db.next, List.find?_eq_none.mpr, Option.bind_none]
    intro r hr hid
    exact h p hp (by simpa [← beq_iff_eq.mp hid] using mem_ids hr)
  rcases Relation.ReflTransGen.cases_head hleads with heq | ⟨c, hc, -⟩
  · exact (hl.target old hret).1 heq.symm
  · exact absurd (hnone.symm.trans hc) (by simp)

theorem step_threaded (h : step_governed env w l = some w') (hw : Ready env w) (hf : Fresh env w l)
    (ht : Threaded w.db) : Threaded w'.db := by
  have he := step_evolves (step_of_governed h).1 hw.wf
  refine ⟨?_, ?_, ?_, ?_⟩
  · intro r hr
    cases row_origin h hw.wf hr with
    | @kept q _ hq => exact ht.read q hq
    | fresh hp => simp [fresh_row, assertion_params, fresh]
    | @retired _ q hp hq hret => exact ht.read q hq
  · intro r hr
    cases row_origin h hw.wf hr with
    | @kept q _ hq => exact ht.ended q hq
    | fresh hp => simp [fresh_row, assertion_params, fresh]
    | retired hp hq hret => simp [AssertionRow.retire]
  · intro r hr s hs
    cases row_origin h hw.wf hr with
    | @kept q _ hq =>
        obtain ⟨q₁, hq₁, hid, hkey⟩ := ht.linked q hq s hs
        obtain ⟨q₂, hq₂, hstep⟩ := he.rows q₁ hq₁
        exact ⟨q₂, hq₂, hstep.id.trans hid, hstep.key.trans hkey⟩
    | fresh hp => cases hs
    | retired hp hq hret =>
        obtain rfl := Option.some.inj hs
        exact ⟨_, fresh_mem h hw.wf hp (hf _ hp), rfl, (retired_key hw.slots hw.wf hp hq hret).symm⟩
  · exact (step_acyclic_iff h hw.wf (fun r hr => (ht.ended r hr).mp) ht.acyclic).mpr
      (forward_of_fresh hf)

/-- CORRECT: a step keeps the rows abutting if and only if what it lands is dated. -/
theorem step_abuts_iff (h : step_governed env w l = some w') (hw : Ready env w) (hf : Fresh env w l)
    (ha : Abuts env.deps w.db) : Abuts env.deps w'.db ↔ Dated env w l := by
  have hstep := (step_of_governed h).1
  have he := step_evolves hstep hw.wf
  constructor
  · intro habut p hp htimed hret
    obtain ⟨old, hold⟩ := Option.ne_none_iff_exists'.mp hret
    obtain ⟨-, -, -, -, -, -, -, -, hl⟩ := landing_some hp
    obtain ⟨-, r, hr, hs, -⟩ := hl.target old hold
    obtain ⟨rfl, hlive, ht⟩ := supersedes_iff.mp hs
    have hkey := retired_key hw.slots hw.wf hp hr hold
    have hpred : r.predicate = p.governed.candidate.predicate := congrArg (fun key => key.2.2.2) hkey
    have hmem : r.retire p.clock.applied_at (assertion_id env.deps.uuid p.governed) ∈ w'.db.assertions := by
      rw [(step_landing hp hw.wf hstep).1]
      exact (mem_landed hw.wf hl).mpr (.retired hr hold hlive ht)
    obtain ⟨q, hq, hsup, hend⟩ := habut _ hmem (hpred ▸ htimed) _ rfl
    have hid : q.id = assertion_id env.deps.uuid p.governed := (Option.some.inj hsup).symm
    obtain rfl := (step_wf hstep hw.wf).eq_of_id hq (fresh_mem h hw.wf hp (hf p hp)) hid
    exact hend
  · intro hd r hr htimed u hu
    cases row_origin h hw.wf hr with
    | @kept q _ hq =>
        obtain ⟨q₁, hq₁, hsup, hend⟩ := ha q hq htimed u hu
        obtain ⟨q₂, hq₂, hstep⟩ := he.rows q₁ hq₁
        refine ⟨q₂, hq₂, hsup.trans (congrArg some hstep.id.symm), hend.trans ?_⟩
        rw [hstep.facts]
    | fresh hp => cases hu
    | @retired p q hp hq hret =>
        have hkey := retired_key hw.slots hw.wf hp hq hret
        have hpred : q.predicate = p.governed.candidate.predicate :=
          congrArg (fun key => key.2.2.2) hkey
        obtain rfl := Option.some.inj hu
        refine ⟨_, fresh_mem h hw.wf hp (hf p hp), rfl, ?_⟩
        exact hd p hp (hpred ▸ htimed) (by rw [hret]; simp)

/-! ### Reads -/

theorem successor_some (hwf : Wf deps.uuid db) {q : AssertionRow} :
    db.successor r = some q ↔ r.superseded_by = some q.id ∧ q ∈ db.assertions := by
  unfold Db.successor
  constructor
  · intro h
    obtain ⟨s, hs, hfind⟩ := Option.bind_eq_some_iff.mp h
    have hid : q.id = s := by simpa using List.find?_some hfind
    exact ⟨hs.trans (congrArg some hid.symm), List.mem_of_find?_eq_some hfind⟩
  · rintro ⟨hs, hq⟩
    rw [hs, Option.bind_some]
    cases hfind : db.assertions.find? fun p => p.id == q.id with
    | none => exact absurd (beq_self_eq_true q.id) (List.find?_eq_none.mp hfind q hq)
    | some p =>
        have hid : p.id = q.id := by simpa using List.find?_some hfind
        rw [hwf.eq_of_id (List.mem_of_find?_eq_some hfind) hq hid]

/-- The rows under a predicate that holds one value at a time. -/
def Db.timed (deps : Deps) (db : Db) : Set AssertionRow :=
  { r | r ∈ db.assertions ∧ deps.timed r.predicate }

/-- CORRECT: abutting rows tile the time. -/
theorem Threaded.tiles (ht : Threaded db) (hwf : Wf deps.uuid db) (ha : Abuts deps db) :
    Tiles db.successor AssertionRow.valid_from AssertionRow.valid_to (db.timed deps) := by
  refine ⟨?_, ?_, ?_, ?_⟩
  · rintro r ⟨hr, htimed⟩ q hq
    obtain ⟨hs, hqm⟩ := (successor_some hwf).mp hq
    obtain ⟨q', hq', hid, hkey⟩ := ht.linked r hr _ hs
    obtain rfl := hwf.eq_of_id hq' hqm hid
    have hpred : q'.predicate = r.predicate := congrArg (fun key => key.2.2.2) hkey
    exact ⟨hqm, hpred ▸ htimed⟩
  · rintro r ⟨hr, htimed⟩ q hq
    obtain ⟨hs, hqm⟩ := (successor_some hwf).mp hq
    obtain ⟨u, hu⟩ := Option.ne_none_iff_exists'.mp fun hnone => by
      rw [(ht.ended r hr).mp hnone] at hs
      cases hs
    obtain ⟨q', hq', hs', rfl⟩ := ha r hr htimed u hu
    obtain rfl := hwf.eq_of_id hq' hqm (Option.some.inj (hs'.symm.trans hs))
    exact hu
  · rintro r ⟨hr, -⟩ u hu
    exact (AssertionRow.violated_eq_none.mp (hwf.checked r hr)).2.2.2.1 u hu
  · rintro r ⟨hr, htimed⟩ hnone
    by_contra hend
    obtain ⟨u, hu⟩ := Option.ne_none_iff_exists'.mp hend
    obtain ⟨q, hq, hs, -⟩ := ha r hr htimed u hu
    rw [(successor_some hwf).mpr ⟨hs, hq⟩] at hnone
    cases hnone

theorem valid_at_iff {t : Time} : r.valid_at t = true ↔
    HoldsAt AssertionRow.valid_from AssertionRow.valid_to t r := by
  simp only [AssertionRow.valid_at, HoldsAt, Bool.and_eq_true, decide_eq_true_eq, Option.all_eq_true,
    Option.mem_def]

/-- A way through the rows is a way through their ids. -/
theorem successor_next (hwf : Wf deps.uuid db) {a b : AssertionRow} (ha : a ∈ db.assertions)
    (h : Relation.TransGen (Lib.Pointer.Edge db.successor) a b) :
    b ∈ db.assertions ∧ Relation.TransGen (Lib.Pointer.Edge db.next) a.id b.id := by
  have hop : ∀ {c d : AssertionRow}, c ∈ db.assertions → Lib.Pointer.Edge db.successor c d →
      d ∈ db.assertions ∧ Lib.Pointer.Edge db.next c.id d.id := by
    intro c d hc he
    obtain ⟨hs, hd⟩ := (successor_some hwf).mp he
    exact ⟨hd, (next_eq_some hwf).mpr ⟨c, hc, rfl, hs⟩⟩
  induction h with
  | single he =>
      obtain ⟨hb, he⟩ := hop ha he
      exact ⟨hb, .single he⟩
  | tail _ he ih =>
      obtain ⟨hc, hac⟩ := ih
      obtain ⟨hd, he⟩ := hop hc he
      exact ⟨hd, hac.tail he⟩

/-- A chain is of one key. -/
theorem Threaded.chain (ht : Threaded db) (hwf : Wf deps.uuid db) {a : AssertionRow}
    (hr : r ∈ db.assertions) (h : Leads db.successor r a) : a ∈ db.assertions ∧ a.key = r.key := by
  induction h with
  | refl => exact ⟨hr, rfl⟩
  | @tail b c _ he ih =>
      obtain ⟨hs, hc⟩ := (successor_some hwf).mp he
      obtain ⟨q, hq, hid, hkey⟩ := ht.linked b ih.1 _ hs
      obtain rfl := hwf.eq_of_id hq hc hid
      exact ⟨hc, hkey.trans ih.2⟩

theorem Threaded.successor_acyclic (ht : Threaded db) (hwf : Wf deps.uuid db) : Acyclic db.successor := by
  intro r hcycle
  -- the last hop of the cycle is into the table
  obtain ⟨c, -, he⟩ := Relation.TransGen.tail'_iff.mp hcycle
  have hr := ((successor_some hwf).mp he).2
  exact ht.acyclic r.id (successor_next hwf hr hcycle).2

/-- A read finds the rows of the key its filters name. -/
theorem Finds.clauses {filters : List (String × String)} {t : Time} (h : Finds cast filters r) :
    ∃ clauses, bound_clauses cast r.namespace filters (some t) = .ok clauses ∧
      ∀ q : AssertionRow, q.key = r.key → q.visible = true → q.retracted_at = none →
        q.embedding.isSome = true → q.valid_at t = true → ∀ c ∈ clauses, c.holds cast q = true := by
  have hfilters : ∀ f ∈ filters, ∃ c, filter_clause f = .ok c ∧ c.bind cast = .ok c ∧
      ∀ q : AssertionRow, q.key = r.key → c.holds cast q = true := by
    rintro ⟨key, value⟩ hf
    rcases h _ hf with ⟨hkey, hcast⟩ | ⟨hkey, hvalue⟩
    · obtain rfl : key = "subject_id" := hkey
      refine ⟨.subject_id value, rfl, by simp [Clause.bind, hcast], fun q hq => ?_⟩
      have hsub : q.subject_id = r.subject_id := congrArg (fun key => key.2.2.1) hq
      simp [Clause.holds, hcast, hsub]
    · obtain rfl : key = "predicate" := hkey
      refine ⟨.predicate value, rfl, rfl, fun q hq => ?_⟩
      have hpred : q.predicate = r.predicate := congrArg (fun key => key.2.2.2) hq
      simp [Clause.holds, hpred, show value = r.predicate from hvalue]
  obtain ⟨fs, hfs⟩ := collect_total fun f hf => (hfilters f hf).imp fun _ hc => hc.1
  have hfound : ∀ c ∈ fs, c.bind cast = .ok c ∧
      ∀ q : AssertionRow, q.key = r.key → c.holds cast q = true := by
    intro c hc
    obtain ⟨f, hf, hfc⟩ := collect_mem hfs c hc
    obtain ⟨c', hc', hbind, hholds⟩ := hfilters f hf
    obtain rfl : c' = c := Except.ok.inj (hc'.symm.trans hfc)
    exact ⟨hbind, hholds⟩
  have hbound : collect (Clause.bind cast) (ALWAYS r.namespace ++ temporal (some t) :: fs) =
      .ok (ALWAYS r.namespace ++ temporal (some t) :: fs) := by
    refine collect_ok.mpr (List.forall₂_same.mpr ?_)
    simp only [ALWAYS, temporal, List.cons_append, List.nil_append, List.forall_mem_cons]
    exact ⟨rfl, rfl, rfl, rfl, rfl, fun c hc => (hfound c hc).1⟩
  refine ⟨_, bind_ok.mpr ⟨_, bind_ok.mpr ⟨fs, hfs, rfl⟩, hbound⟩, ?_⟩
  intro q hq hv hret hemb hat
  have hns : q.namespace = r.namespace := congrArg (fun key => key.2.1) hq
  simp only [ALWAYS, temporal, List.cons_append, List.nil_append, List.forall_mem_cons]
  exact ⟨by simp [Clause.holds, hns], hv, by simp [Clause.holds, hret], hemb, hat,
    fun c hc => (hfound c hc).2 q hq⟩

/-- With every event dispatched every row is visible. -/
theorem Ready.visible (hw : Ready env w) (hq : w.db.Quiet) (hr : r ∈ w.db.assertions) :
    r.visible = true := by
  obtain ⟨o, ho, hoa⟩ := hw.wf.queued r hr
  exact (hw.relayed.dispatched r hr o ho hoa).mpr (hq o ho)

/-- CORRECT: while the rows abut, reads as of any instant are unambiguous. -/
theorem Ready.pointInTime (hw : Ready env w) (ht : Threaded w.db) (ha : Abuts env.deps w.db) :
    PointInTime env.deps cast w.db := by
  have htiles := ht.tiles hw.wf ha
  refine ⟨?_, ?_, ?_⟩
  · intro r hr htimed u hu
    obtain ⟨q, hq, hs, hend⟩ := ha r hr htimed u hu
    exact ⟨q, (successor_some hw.wf).mpr ⟨hs, hq⟩, hend⟩
  · intro first hfirst htimed tenant ns vector k filters t hits hsearch a b hla hlb hma hmb
    obtain ⟨clauses, hclauses, -⟩ := bind_ok.mp hsearch
    obtain ⟨hits', hsearch', hids⟩ := @search_rows cast env.deps _ tenant ns vector k _ _ _
      _ hw.wf (fun r hr => (ht.read r hr).2) hclauses
    obtain rfl : hits' = hits := Except.ok.inj (hsearch'.symm.trans hsearch)
    have hat : ∀ c, Leads w.db.successor first c →
        c.id ∈ hits'.map (fun hit => hit.assertion.assertion_id) →
        HoldsAt AssertionRow.valid_from AssertionRow.valid_to t c := by
      intro c hlc hmc
      rw [hids] at hmc
      obtain ⟨c', hc', hid⟩ := List.mem_map.mp hmc
      obtain ⟨hrow, -, hholds⟩ := mem_selected.mp (nearest_rows_mem hc')
      obtain rfl := hw.wf.eq_of_id hrow (htiles.mem ⟨hfirst, htimed⟩ hlc).1 hid
      obtain ⟨fs, -, rfl⟩ := bound_clauses_ok hclauses
      exact valid_at_iff.mp (hholds (.valid_at t) (by simp [temporal]))
    exact htiles.unique ⟨hfirst, htimed⟩ hla hlb (hat a hla hma) (hat b hlb hmb)
  · intro hquiet first hfirst htimed vector k filters t hfinds hk hstart
    obtain ⟨clauses, hclauses, hholds⟩ := hfinds.clauses (t := t)
    obtain ⟨hits, hsearch, hids⟩ := @search_rows cast env.deps _ first.tenant_id _ vector
      k _ _ _ _ hw.wf (fun r hr => (ht.read r hr).2) hclauses
    obtain ⟨a, hla, hat⟩ := htiles.covers (ht.successor_acyclic hw.wf)
      ((List.finite_toSet _).subset fun _ h => h.1) ⟨hfirst, htimed⟩ hstart
    obtain ⟨hrow, hkey⟩ := ht.chain hw.wf hfirst hla
    refine ⟨hits, hsearch, a, hla, ?_⟩
    rw [hids]
    refine List.mem_map_of_mem ((nearest_rows_all (le_trans (List.length_filter_le _ _) hk)).mpr ?_)
    refine mem_selected.mpr ⟨hrow, congrArg Prod.fst hkey, ?_⟩
    exact hholds a hkey (hw.visible hquiet hrow) (hw.unspoiled a hrow).1 (ht.read a hrow).1
      (valid_at_iff.mpr hat)

theorem PointInTime.abutting (h : PointInTime deps cast db) (hwf : Wf deps.uuid db) : Abuts deps db := by
  intro r hr htimed u hu
  obtain ⟨q, hq, hend⟩ := h.abuts r hr htimed u hu
  obtain ⟨hs, hqm⟩ := (successor_some hwf).mp hq
  exact ⟨q, hqm, hs, hend⟩

/-- CORRECT: in a history without redelivery, point-in-time reads are unambiguous in every state exactly
    when every superseding apply runs at the instant its new row starts. -/
theorem point_in_time_iff (env : Env G) (cast : UuidCast) (ls : List Label) (honce : Once ls) :
    Always (step_governed env) (fun w => PointInTime env.deps cast w.db) env.init ls ↔
      Along (step_governed env) (Dated env) env.init ls := by
  refine always_iff_along_within (I := fun w => Ready env w ∧ Threaded w.db) (R := Fresh env) ?_ ?_ ?_
    (fresh_of_once honce) ⟨ready_init, threaded_init⟩ (ready_init.pointInTime threaded_init ?_)
  · rintro w l w' h hf ⟨hw, ht⟩
    exact ⟨step_ready h hw, step_threaded h hw hf ht⟩
  · intro w l h p hp
    rw [landing_of_disabled h] at hp
    cases hp
  · rintro w l w' h hf ⟨hw, ht⟩ hp
    rw [← step_abuts_iff h hw hf (hp.abutting hw.wf)]
    have hw' := step_ready h hw
    exact ⟨fun hp' => hp'.abutting hw'.wf, fun ha => hw'.pointInTime (step_threaded h hw hf ht) ha⟩
  · exact fun r hr => absurd hr List.not_mem_nil

section Clinical

open GuardMem.Clinical

/-- French is said at 10 and applied at 20; Welsh is said at 15, applied at 40, and supersedes it. -/
def late_welsh : List Label :=
  [proposal "t" [language "t" "c_1" "French" 10], scored 0 0, applied 0 20] ++
    dispatched 0 (row_id "t" "c_1") 30 ++
  [proposal "u" [language "u" "c_1" "Welsh" 15], scored 1 0, applied 1 40] ++
    dispatched 1 (row_id "u" "c_1") 50

/-- As of 20 the patient prefers both. -/
theorem both_languages : ¬ ∀ ls, Once ls → Always (step_governed Clinical.env)
    (fun w => PointInTime Clinical.deps some w.db) Clinical.env.init ls := by
  intro h
  have hrun : ∃ w ∈ run (step_governed Clinical.env) Clinical.env.init late_welsh,
      ∃ french ∈ w.db.assertions, ∃ welsh ∈ w.db.assertions, french.predicate = "preferred_language" ∧
        w.db.successor french = some welsh ∧ french ≠ welsh ∧
        (PgVectorStore.search some Clinical.deps "clinic" "patient:1" [1] 10 [] (some 20) w.db).map
          (fun hits => hits.map fun hit => hit.assertion.assertion_id) = .ok [french.id, welsh.id] := by
    decide +kernel
  obtain ⟨w, hw, french, hf, welsh, hwelsh, hpred, hsucc, hne, hsearch⟩ := hrun
  have htimed : Clinical.deps.timed french.predicate := by rw [hpred]; decide
  have hp := (h late_welsh (by decide +kernel)).last hw
  cases hs : PgVectorStore.search some Clinical.deps "clinic" "patient:1" [1] 10 [] (some 20) w.db with
  | error exc => simp [hs, Except.map] at hsearch
  | ok hits =>
      simp only [hs, Except.map, Except.ok.injEq] at hsearch
      exact hne (hp.at_most_one french hf htimed _ _ _ _ _ _ hits hs french welsh .refl (.single hsucc)
        (by simp [hsearch]) (by simp [hsearch]))

/-- The same, applied at the very instant it was said. -/
def prompt_welsh : List Label :=
  [proposal "t" [language "t" "c_1" "French" 10], scored 0 0, applied 0 20] ++
    dispatched 0 (row_id "t" "c_1") 30 ++
  [proposal "u" [language "u" "c_1" "Welsh" 40], scored 1 0, applied 1 40] ++
    dispatched 1 (row_id "u" "c_1") 50

theorem prompt_welsh_unambiguous :
    (run (step_governed Clinical.env) Clinical.env.init prompt_welsh).isSome = true ∧
      Always (step_governed Clinical.env) (fun w => PointInTime Clinical.deps some w.db)
        Clinical.env.init prompt_welsh :=
  ⟨by decide +kernel, (point_in_time_iff Clinical.env some prompt_welsh (by decide +kernel)).mpr
    (by decide +kernel)⟩

end Clinical

end GuardMem
