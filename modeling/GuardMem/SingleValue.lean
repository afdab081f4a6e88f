import GuardMem.Clinical

/-! One live value for a `ONE` predicate.

    Nothing in the database enforces it: scoring reads visible rows only and an apply closes only the
    row its report named. Two candidates scored before either is revealed are both written
    (`two_values`). CORRECT as long as no apply inserts beside a live row its scoring could not see
    (`single_value`), and a second live row is in the store as soon as one does (`oneLive_iff`). -/

namespace GuardMem

open Lib.Transition

variable {G : Type} {env : Env G} {w w' : World G} {l : Label}

/-- The ontology declares the predicate `ONE`. -/
def Deps.one (deps : Deps) (predicate : String) : Prop :=
  (deps.ontology predicate).map PredicateSpec.cardinality = some .ONE

instance (deps : Deps) (predicate : String) : Decidable (deps.one predicate) :=
  inferInstanceAs (Decidable (_ = _))

/-- At most one visible, live row for each key of a `ONE` predicate. -/
def SingleValue (deps : Deps) (db : Db) : Prop :=
  ∀ r ∈ db.assertions, ∀ r' ∈ db.assertions, deps.one r.predicate → r'.key = r.key →
    r.served = true → r'.served = true → r' = r

instance (deps : Deps) (db : Db) : Decidable (SingleValue deps db) :=
  inferInstanceAs (Decidable (∀ r ∈ db.assertions, ∀ r' ∈ db.assertions, _))

/-- What a landing apply inserts under a `ONE` predicate has beside it, of the live rows of its key,
    only rows its scoring could see. -/
def Landing.Sighted (deps : Deps) (db : Db) (p : Landing) : Prop :=
  deps.one p.governed.candidate.predicate → assertion_id deps.uuid p.governed ∉ db.ids →
    ∀ r ∈ db.assertions, r.key = p.governed.key p.tenant → r.live = true → r.id ∈ p.seen

instance (deps : Deps) (db : Db) (p : Landing) : Decidable (p.Sighted deps db) :=
  inferInstanceAs (Decidable (_ → _ → ∀ r ∈ db.assertions, _))

/-- The step lands no apply that is not sighted. -/
def Sighted (env : Env G) (w : World G) (l : Label) : Prop :=
  ∀ p ∈ landing env w l, p.Sighted env.deps w.db

instance (w : World G) (l : Label) : Decidable (Sighted env w l) :=
  inferInstanceAs (Decidable (∀ p ∈ landing env w l, _))

/-- The invariant: one live row, visible or not, and each scored candidate that writes retires
    whatever of its key it could see. -/
structure OneLive (deps : Deps) (w : World G) : Prop where
  live : ∀ r ∈ w.db.assertions, ∀ r' ∈ w.db.assertions, deps.one r.predicate → r'.key = r.key →
    r.live = true → r'.live = true → r' = r
  judged : ∀ x ∈ w.deliveries, ∀ g seen, Slot.scored g seen ∈ x.slots →
    deps.one g.candidate.predicate → refusal g = none → ∀ rid ∈ seen, retires g = some rid

theorem one_of_key {deps : Deps} {r r' : AssertionRow} (h : r'.key = r.key)
    (hone : deps.one r.predicate) : deps.one r'.predicate := by
  simp only [AssertionRow.key, Prod.mk.injEq] at h
  exact h.2.2.2 ▸ hone

/-- Under a `ONE` predicate a search of one key sees no row or one. -/
theorem OneLive.readable {deps : Deps} (h : OneLive deps w) (hwf : Wf deps.uuid w.db)
    {tenant : TenantId} {ns : Namespace} {sid : EntityId} {predicate : String}
    (hone : deps.one predicate) {r : AssertionRow} (hr : r ∈ w.db.assertions)
    (hread : GuardMem.readable tenant ns sid predicate r = true) :
    w.db.assertions.filter (GuardMem.readable tenant ns sid predicate) = [r] := by
  obtain ⟨hkey, -, hlive, -⟩ := readable_iff.mp hread
  have hpred : r.predicate = predicate := by
    simp only [AssertionRow.key, Prod.mk.injEq] at hkey
    exact hkey.2.2.2
  have hall : ∀ q ∈ w.db.assertions.filter (GuardMem.readable tenant ns sid predicate), q = r := by
    intro q hq
    obtain ⟨hq, hqread⟩ := List.mem_filter.mp hq
    obtain ⟨hqkey, -, hqlive, -⟩ := readable_iff.mp hqread
    exact h.live r hr q hq (hpred ▸ hone) (hqkey.trans hkey.symm) hlive hqlive
  have hnd : (w.db.assertions.filter (GuardMem.readable tenant ns sid predicate)).Nodup :=
    (List.Nodup.of_map _ hwf.ids_nodup).filter _
  have hmem : r ∈ w.db.assertions.filter (GuardMem.readable tenant ns sid predicate) :=
    List.mem_filter.mpr ⟨hr, hread⟩
  generalize w.db.assertions.filter (GuardMem.readable tenant ns sid predicate) = hits at *
  rcases hits with _ | ⟨q, _ | ⟨q', rest⟩⟩
  · exact absurd hmem List.not_mem_nil
  · rw [hall q List.mem_cons_self]
  · have heq : q = q' :=
      (hall q List.mem_cons_self).trans (hall q' (List.mem_cons_of_mem _ List.mem_cons_self)).symm
    rw [heq] at hnd
    simp at hnd

/-- A candidate scored in a state with one live row retires it if it writes at all. -/
theorem OneLive.scored {deps : Deps} (h : OneLive deps w) (hwf : Wf deps.uuid w.db)
    {tenant : TenantId} {c : MemoryCandidate} {reply : ScoreReply} {g : GovernedCandidate}
    (hg : score_candidate deps tenant c reply w.db = .ok g) (hfrom : c.valid_from = none)
    (hto : c.valid_to = none) (hone : deps.one c.predicate) (hw : refusal g = none)
    {rid : AssertionId} (hrid : rid ∈ seen_ids tenant c.namespace g.subject_id c.predicate w.db) :
    retires g = some rid := by
  obtain ⟨r, hr, rfl⟩ := List.mem_map.mp hrid
  obtain ⟨hr, hread⟩ := List.mem_filter.mp hr
  obtain ⟨spec, hspec, hcard⟩ := Option.map_eq_some_iff.mp hone
  unfold refusal at hw
  rcases score_candidate_single hg hspec hcard hfrom hto (h.readable hwf hone hr hread) with
    ⟨hsup, hinc⟩ | hmerge | hno
  · rw [retires, if_pos hsup, hinc]
  · rw [hmerge] at hw
    split at hw <;> simp at hw
  · rw [if_pos hno] at hw
    cases hw

/-- A row that a sighted apply inserts stands alone under its key. -/
theorem OneLive.landed {deps : Deps} (h : OneLive deps w) (hwf : Wf deps.uuid w.db) {p : Landing}
    (hl : Lands deps p.tenant p.clock p.governed w.db) (hs : p.Sighted deps w.db)
    (hj : deps.one p.governed.candidate.predicate →
      ∀ rid ∈ p.seen, retires p.governed = some rid) :
    ∀ r ∈ (landed deps p.tenant p.trace p.clock p.governed w.db).assertions,
      ∀ r' ∈ (landed deps p.tenant p.trace p.clock p.governed w.db).assertions,
      deps.one r.predicate → r'.key = r.key → r.live = true → r'.live = true → r' = r := by
  -- beside a fresh row there is no live one: its scoring saw it, so the apply retired it
  have alone : ∀ q ∈ w.db.assertions, assertion_id deps.uuid p.governed ∉ w.db.ids →
      retires p.governed ≠ some q.id → q.live = true → q.key = p.governed.key p.tenant →
      deps.one p.governed.candidate.predicate → False := by
    intro q hq hnew hne hlive hkey hone
    exact hne (hj hone q.id (hs hone hnew q hq hkey hlive))
  intro r hr r' hr' hone hkey hlive hlive'
  rcases (mem_landed hwf hl).mp hr with ⟨hr, hne⟩ | hnew | ⟨-, -, -, -⟩
  · rcases (mem_landed hwf hl).mp hr' with ⟨hr', hne'⟩ | hnew' | ⟨-, -, -, -⟩
    · exact h.live r hr r' hr' hone hkey hlive hlive'
    · exact (alone r hr hnew' hne hlive hkey.symm (one_of_key hkey hone)).elim
    · simp [AssertionRow.live, AssertionRow.retire] at hlive'
  · rcases (mem_landed hwf hl).mp hr' with ⟨hr', hne'⟩ | hnew' | ⟨-, -, -, -⟩
    · exact (alone r' hr' hnew hne' hlive' hkey hone).elim
    · rfl
    · simp [AssertionRow.live, AssertionRow.retire] at hlive'
  · simp [AssertionRow.live, AssertionRow.retire] at hlive

/-- A landing apply that keeps one live row is sighted: a live row it could not see it does not
    retire, and the row it inserts is another. -/
theorem OneLive.sighted {p : Landing} (h : OneLive env.deps w')
    (hwf : Wf env.deps.uuid w.db) (hs : SlotsOk w) (hp : landing env w l = some p)
    (hdb : w'.db = GuardMem.landed env.deps p.tenant p.trace p.clock p.governed w.db) :
    p.Sighted env.deps w.db := by
  obtain ⟨d, x, rest, -, hx, ht, htr, hnext, hl⟩ := landing_some hp
  intro hone hnew r hr hkey hlive
  by_contra hblind
  have hne : retires p.governed ≠ some r.id := fun hret =>
    hblind ((hs.next hx hnext).2 r.id hret).1
  have hkept : r ∈ w'.db.assertions := hdb ▸ (mem_landed hwf hl).mpr (.kept hr hne)
  have hfresh : fresh_row env.deps p.tenant p.clock p.governed ∈ w'.db.assertions :=
    hdb ▸ (mem_landed hwf hl).mpr (.fresh hnew)
  have heq := h.live _ hfresh r hkept hone hkey rfl hlive
  exact hnew (by rw [← fresh_row_id, ← heq]; exact mem_ids hr)

/-- A step that inserts and retires nothing keeps one live row. -/
theorem OneLive.unlanded {deps : Deps} (h : OneLive deps w) (hu : Unlanded w w') :
    ∀ r ∈ w'.db.assertions, ∀ r' ∈ w'.db.assertions, deps.one r.predicate → r'.key = r.key →
      r.live = true → r'.live = true → r' = r := by
  obtain ⟨f, hrows, hf⟩ := hu.rows
  have hkey : ∀ r, (f r).key = r.key := fun r => by rw [hf]; rfl
  have hlive : ∀ r, (f r).live = r.live := fun r => by rw [hf]; rfl
  intro r hr r' hr' hone hk hl hl'
  rw [hrows] at hr hr'
  obtain ⟨q, hq, rfl⟩ := List.mem_map.mp hr
  obtain ⟨q', hq', rfl⟩ := List.mem_map.mp hr'
  rw [hlive] at hl hl'
  rw [hkey, hkey] at hk
  rw [h.live q hq q' hq' (one_of_key (hkey q).symm hone) hk hl hl']

/-- What is scored in a state with one live row is judged rightly. -/
theorem OneLive.step_judged (h : OneLive env.deps w) (hi : Wf env.deps.uuid w.db) (hs : SlotsOk w)
    (hstep : step env w l = some w') {x : Delivery} (hx : x ∈ w'.deliveries) {g : GovernedCandidate}
    {seen : List AssertionId} (hg : Slot.scored g seen ∈ x.slots)
    (hone : env.deps.one g.candidate.predicate) (hw : refusal g = none) :
    ∀ rid ∈ seen, retires g = some rid := by
  intro rid hrid
  rcases step_slots hstep hx hg with ⟨hy, -, -, hsy⟩ | _ | _ | @⟨y, c, reply, _, hy, ht, -, hc, hscore⟩
  · exact h.judged _ hy g seen hsy hone hw rid hrid
  · obtain ⟨-, -, hfrom, hto⟩ := hs y hy _ hc
    obtain ⟨rfl, -⟩ := score_candidate_ok hscore
    exact h.scored hi hscore hfrom hto hone hw hrid

/-- A step keeps one live row if and only if it is sighted. -/
theorem step_oneLive_iff (h : step_governed env w l = some w') (hi : Wf env.deps.uuid w.db)
    (hs : SlotsOk w) (ho : OneLive env.deps w) : OneLive env.deps w' ↔ Sighted env w l := by
  have hstep := (step_of_governed h).1
  have hjudged : ∀ x ∈ w'.deliveries, ∀ g seen, Slot.scored g seen ∈ x.slots →
      env.deps.one g.candidate.predicate → refusal g = none → ∀ rid ∈ seen, retires g = some rid :=
    fun x hx g seen => ho.step_judged hi hs hstep hx
  unfold Sighted
  cases hp : landing env w l with
  | none =>
      simp only [Option.mem_def, reduceCtorEq, false_implies, implies_true, iff_true]
      exact ⟨ho.unlanded (step_unlanded hp hi h), hjudged⟩
  | some p =>
      obtain ⟨hdb, -⟩ := step_landing hp hi hstep
      obtain ⟨d, x, rest, -, hx, -, -, hnext, hl⟩ := landing_some hp
      simp only [Option.mem_def, Option.some.injEq, forall_eq']
      constructor
      · exact fun ho' => ho'.sighted hi hs hp hdb
      · intro hsight
        refine ⟨hdb ▸ ho.landed hi hl hsight fun hone => ?_, hjudged⟩
        exact ho.judged x (List.mem_of_getElem? hx) _ _ (next_apply_mem hnext).1 hone hl.writes

theorem oneLive_init : OneLive env.deps env.init :=
  ⟨fun _ hr => absurd hr List.not_mem_nil, fun _ hx => absurd hx List.not_mem_nil⟩

theorem OneLive.singleValue {deps : Deps} (h : OneLive deps w) : SingleValue deps w.db :=
  fun r hr r' hr' hone hkey hl hl' =>
    h.live r hr r' hr' hone hkey (served_iff.mp hl).2 (served_iff.mp hl').2

/-- A run keeps one live row for each key of a `ONE` predicate if and only if its applies are all
    sighted. -/
theorem oneLive_iff (env : Env G) (ls : List Label) :
    Always (step_governed env) (OneLive env.deps) env.init ls ↔
      Along (step_governed env) (Sighted env) env.init ls := by
  refine always_iff_along (I := fun w => Wf env.deps.uuid w.db ∧ SlotsOk w) ?_ ?_ ?_
    ⟨.empty, slotsOk_init⟩ oneLive_init
  · rintro w l w' h ⟨hi, hs⟩
    have hstep := (step_of_governed h).1
    exact ⟨step_wf hstep hi, step_slotsOk hstep hi hs⟩
  · intro w l h p hp
    rw [landing_of_disabled h] at hp
    cases hp
  · rintro w l w' h ⟨hi, hs⟩ ho
    exact step_oneLive_iff h hi hs ho

/-- CORRECT: in a run whose applies are all sighted, every state holds at most one visible, live row
    for each key of a `ONE` predicate. -/
theorem single_value (env : Env G) (ls : List Label)
    (h : Along (step_governed env) (Sighted env) env.init ls) :
    Always (step_governed env) (fun w => SingleValue env.deps w.db) env.init ls :=
  ((oneLive_iff env ls).mpr h).mono fun _ ho => ho.singleValue

section Clinical

open GuardMem.Clinical

/-- One proposal with two languages: both candidates are scored, then both applied, then revealed. -/
def two_languages : List Label :=
  [proposal "t" [language "t" "c_1" "French" 10, language "t" "c_2" "German" 10],
    scored 0 0, scored 0 1, applied 0 20, applied 0 20,
    .claim [] [outbox_id uuid (row_id "t" "c_1"), outbox_id uuid (row_id "t" "c_2")],
    .load 0, .write 0 .answers, .complete 0 30, .load 0, .write 0 .answers, .complete 0 30]

/-- It ends with two visible, live rows under one key. -/
theorem two_values : ¬ Always (step_governed Clinical.env)
    (fun w => SingleValue Clinical.deps w.db) Clinical.env.init two_languages := by
  decide +kernel

/-- The second language is proposed once the first is revealed, and supersedes it. -/
def in_turn : List Label :=
  [proposal "t" [language "t" "c_1" "French" 10], scored 0 0, applied 0 20] ++
    dispatched 0 (row_id "t" "c_1") 30 ++
  [proposal "u" [language "u" "c_1" "German" 35], scored 1 0, applied 1 40] ++
    dispatched 1 (row_id "u" "c_1") 50

theorem in_turn_single_value :
    (run (step_governed Clinical.env) Clinical.env.init in_turn).isSome = true ∧
      Always (step_governed Clinical.env) (fun w => SingleValue Clinical.deps w.db)
        Clinical.env.init in_turn :=
  ⟨by decide +kernel, single_value Clinical.env in_turn (by decide +kernel)⟩

end Clinical

end GuardMem
