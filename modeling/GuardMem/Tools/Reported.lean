import GuardMem.Tools.Calls

/-! What a proposal's answer reports, against what its applies wrote: `result_of` over `apply_all`.

    CORRECT: every row the call added is reported by the candidate it states, every reported id is a row's,
    and a candidate of which neither a row nor a reason is reported is one that failed
    (`propose_reports`). -/

namespace GuardMem.Tools

open Lib.Table

/-! ### One apply -/

/-- What a retirement leaves of a row. -/
def told (r : AssertionRow) : AssertionRow := { r with valid_to := none, superseded_by := none }

@[simp] theorem told_id (r : AssertionRow) : (told r).id = r.id := rfl

@[simp] theorem told_retire {t : Time} {aid : AssertionId} (r : AssertionRow) :
    told (r.retire t aid) = told r := rfl

theorem id_of_told {r r' : AssertionRow} (h : told r = told r') : r.id = r'.id := by
  have hid := congrArg AssertionRow.id h
  exact hid

section

variable {deps : Deps} {tenant : TenantId} {trace : TraceId} {g : GovernedCandidate} {db db' : Db}

/-- An apply reports the row it has put there, or a reason and no row. -/
theorem apply_told {clock : ApplyClock} {o : Applied}
    (h : apply deps tenant trace clock g db = .ok (o, db')) :
    (∃ reason, o = ⟨g.candidate.candidate_id, none, some reason⟩ ∧ db'.assertions = db.assertions) ∨
      (refusal g = none ∧ o = landed_outcome deps g ∧ db'.assertions.map told =
        (insertNew AssertionRow.id (fresh_row deps tenant clock g) db.assertions).map told) := by
  cases hw : refusal g with
  | some reason =>
      rw [apply_refused hw] at h
      obtain ⟨rfl, rfl⟩ := Prod.mk.inj (Except.ok.inj h)
      exact .inl ⟨reason, rfl, rfl⟩
  | none =>
      obtain ⟨-, -, rfl, rfl, -⟩ := (apply_body_ok hw).mp h
      refine .inr ⟨rfl, rfl, ?_⟩
      rw [landed, landed_assertions]
      cases retires g with
      | none => rfl
      | some old => exact map_updateWhere told_retire

end

/-! ### All of them -/

variable (deps : Deps) (tenant : TenantId) (trace : TraceId) (clock : CandidateId → ApplyClock)

/-- Every decision with how its apply ended, and the tables after them. -/
def applyings : List GovernedCandidate → Db → List Applying × Db
  | [], db => ([], db)
  | g :: gs, db =>
      match apply deps tenant trace (clock g.candidate.candidate_id) g db with
      | .error exc => ((g, .error exc) :: (applyings gs db).1, (applyings gs db).2)
      | .ok (o, db) => ((g, .ok o) :: (applyings gs db).1, (applyings gs db).2)

variable {deps tenant trace clock} {gs : List GovernedCandidate} {db : Db}

theorem applyings_error {g : GovernedCandidate} {exc : Exc}
    (h : apply deps tenant trace (clock g.candidate.candidate_id) g db = .error exc) :
    applyings deps tenant trace clock (g :: gs) db =
      ((g, .error exc) :: (applyings deps tenant trace clock gs db).1,
        (applyings deps tenant trace clock gs db).2) := by
  rw [applyings, h]

theorem applyings_ok {g : GovernedCandidate} {o : Applied} {after : Db}
    (h : apply deps tenant trace (clock g.candidate.candidate_id) g db = .ok (o, after)) :
    applyings deps tenant trace clock (g :: gs) db =
      ((g, .ok o) :: (applyings deps tenant trace clock gs after).1,
        (applyings deps tenant trace clock gs after).2) := by
  rw [applyings, h]

theorem map_applyings : ∀ (gs : List GovernedCandidate) (db : Db),
    (applyings deps tenant trace clock gs db).1.map Prod.fst = gs
  | [], _ => rfl
  | g :: gs, db => by
      cases happly : apply deps tenant trace (clock g.candidate.candidate_id) g db with
      | error exc => rw [applyings_error happly, List.map_cons, map_applyings gs]
      | ok out => rw [applyings_ok happly, List.map_cons, map_applyings gs]

theorem apply_all_applyings_eq : ∀ (gs : List GovernedCandidate) (db : Db),
    apply_all deps tenant trace (gs.map fun g => (g, clock g.candidate.candidate_id)) db =
      ((applyings deps tenant trace clock gs db).1.filterMap Applying.outcome,
        (applyings deps tenant trace clock gs db).1.filterMap Applying.failure,
        (applyings deps tenant trace clock gs db).2)
  | [], _ => rfl
  | g :: gs, db => by
      cases happly : apply deps tenant trace (clock g.candidate.candidate_id) g db with
      | error exc =>
          rw [applyings_error happly]
          simp [apply_all, happly, apply_all_applyings_eq gs db, List.filterMap_cons]
      | ok out =>
          rw [applyings_ok happly]
          simp [apply_all, happly, apply_all_applyings_eq gs out.2, List.filterMap_cons]

/-- What an apply that went through reports of its own decision. -/
def Own (deps : Deps) : Applying → Prop
  | (_, .error _) => True
  | (g, .ok o) => (∃ reason, o = ⟨g.candidate.candidate_id, none, some reason⟩) ∨ o = landed_outcome deps g

theorem applyings_own : ∀ (gs : List GovernedCandidate) (db : Db),
    ∀ a ∈ (applyings deps tenant trace clock gs db).1, Own deps a
  | [], _ => by simp [applyings]
  | g :: gs, db => by
      cases happly : apply deps tenant trace (clock g.candidate.candidate_id) g db with
      | error exc =>
          rw [applyings_error happly]
          exact List.forall_mem_cons.mpr ⟨trivial, applyings_own gs db⟩
      | ok out =>
          rw [applyings_ok happly]
          refine List.forall_mem_cons.mpr ⟨?_, applyings_own gs out.2⟩
          rcases apply_told happly with ⟨reason, ho, -⟩ | ⟨-, ho, -⟩
          · exact .inl ⟨reason, ho⟩
          · exact .inr ho

/-- The row that an apply's report is of. -/
structure Reports (deps : Deps) (tenant : TenantId) (clock : CandidateId → ApplyClock) (a : Applying)
    (row : AssertionRow) : Prop where
  writes : refusal a.1 = none
  outcome : a.2 = .ok (landed_outcome deps a.1)
  row : told row = told (fresh_row deps tenant (clock a.1.candidate.candidate_id) a.1)

/-- No row is lost, every other one is reported, and every report is of a row. -/
structure Written (deps : Deps) (tenant : TenantId) (clock : CandidateId → ApplyClock) (as : List Applying)
    (db after : Db) : Prop where
  kept : ∀ old ∈ db.assertions, ∃ row ∈ after.assertions, told row = told old
  added : ∀ row ∈ after.assertions, (∃ old ∈ db.assertions, told old = told row) ∨
    ∃ a ∈ as, Reports deps tenant clock a row
  there : ∀ a ∈ as, a.2 = .ok (landed_outcome deps a.1) → assertion_id deps.uuid a.1 ∈ after.ids

theorem Written.refl (db : Db) : Written deps tenant clock [] db db where
  kept old hold := ⟨old, hold, rfl⟩
  added row hrow := .inl ⟨row, hrow, rfl⟩
  there _ ha := absurd ha List.not_mem_nil

theorem Written.trans {as bs : List Applying} {db mid after : Db} (h : Written deps tenant clock as db mid)
    (h' : Written deps tenant clock bs mid after) : Written deps tenant clock (as ++ bs) db after where
  kept old hold := by
    obtain ⟨m, hm, htold⟩ := h.kept old hold
    obtain ⟨row, hrow, htold'⟩ := h'.kept m hm
    exact ⟨row, hrow, htold'.trans htold⟩
  added row hrow := by
    rcases h'.added row hrow with ⟨m, hm, htold⟩ | ⟨a, ha, hreports⟩
    · rcases h.added m hm with ⟨old, hold, htold'⟩ | ⟨a, ha, hwrites, houtcome, htold'⟩
      · exact .inl ⟨old, hold, htold'.trans htold⟩
      · exact .inr ⟨a, List.mem_append_left _ ha, hwrites, houtcome, htold.symm.trans htold'⟩
    · exact .inr ⟨a, List.mem_append_right _ ha, hreports⟩
  there a ha hlanded := by
    rcases List.mem_append.mp ha with ha | ha
    · obtain ⟨m, hm, hid⟩ := List.mem_map.mp (h.there a ha hlanded)
      obtain ⟨row, hrow, htold⟩ := h'.kept m hm
      exact List.mem_map.mpr ⟨row, hrow, (id_of_told htold).trans hid⟩
    · exact h'.there a ha hlanded

theorem written_failed {g : GovernedCandidate} {exc : Exc} {db : Db} :
    Written deps tenant clock [(g, .error exc)] db db where
  kept old hold := ⟨old, hold, rfl⟩
  added row hrow := .inl ⟨row, hrow, rfl⟩
  there a ha hlanded := by
    obtain rfl := List.mem_singleton.mp ha
    cases hlanded

/-- The rows one apply leaves, whether it wrote or not. -/
theorem apply_written {g : GovernedCandidate} {o : Applied} {db after : Db}
    (h : apply deps tenant trace (clock g.candidate.candidate_id) g db = .ok (o, after)) :
    Written deps tenant clock [(g, .ok o)] db after := by
  rcases apply_told h with ⟨reason, rfl, hsame⟩ | ⟨hwrites, rfl, hrows⟩
  · refine ⟨fun old hold => ⟨old, hsame ▸ hold, rfl⟩, fun row hrow => .inl ⟨row, hsame ▸ hrow, rfl⟩,
      fun a ha hlanded => ?_⟩
    obtain rfl := List.mem_singleton.mp ha
    cases hlanded
  · have hmem : ∀ row, (∃ r ∈ after.assertions, told r = told row) ↔
        ∃ r ∈ insertNew AssertionRow.id
          (fresh_row deps tenant (clock g.candidate.candidate_id) g) db.assertions,
          told r = told row := by
      intro row
      rw [← List.mem_map, hrows, List.mem_map]
    refine ⟨fun old hold => ?_, fun row hrow => ?_, fun a ha _ => ?_⟩
    · exact (hmem old).mpr ⟨old, mem_insertNew_of_mem hold, rfl⟩
    · obtain ⟨r, hr, htold⟩ := (hmem row).mp ⟨row, hrow, rfl⟩
      rcases mem_insertNew.mp hr with hr | ⟨rfl, -⟩
      · exact .inl ⟨r, hr, htold⟩
      · exact .inr ⟨_, List.mem_singleton_self _, hwrites, rfl, htold.symm⟩
    · obtain rfl := List.mem_singleton.mp ha
      have hkey : assertion_id deps.uuid g ∈ (insertNew AssertionRow.id
          (fresh_row deps tenant (clock g.candidate.candidate_id) g) db.assertions).map AssertionRow.id :=
        key_mem_insertNew
      obtain ⟨r, hr, hid⟩ := List.mem_map.mp hkey
      obtain ⟨r', hr', htold⟩ := (hmem r).mpr ⟨r, hr, rfl⟩
      exact List.mem_map.mpr ⟨r', hr', (id_of_told htold).trans hid⟩

theorem applyings_written : ∀ (gs : List GovernedCandidate) (db : Db),
    Written deps tenant clock (applyings deps tenant trace clock gs db).1 db
      (applyings deps tenant trace clock gs db).2
  | [], db => .refl db
  | g :: gs, db => by
      cases happly : apply deps tenant trace (clock g.candidate.candidate_id) g db with
      | error exc =>
          rw [applyings_error happly]
          exact written_failed.trans (applyings_written gs db)
      | ok out =>
          rw [applyings_ok happly]
          exact (apply_written happly).trans (applyings_written gs out.2)

/-! ### By candidate id -/

theorem Own.candidate {a : Applying} (h : Own deps a) {o : Applied} (ho : a.outcome = some o) :
    o.candidate_id = a.1.candidate.candidate_id := by
  obtain ⟨g, _ | o'⟩ := a
  · cases ho
  · obtain rfl := Option.some.inj ho
    rcases h with ⟨reason, rfl⟩ | rfl
    · rfl
    · rfl

/-- Where every candidate has an id of its own, its outcome is looked up under it. -/
theorem outcome_of_applyings : ∀ {as : List Applying}, (∀ a ∈ as, Own deps a) →
    (as.map fun a => a.1.candidate.candidate_id).Nodup → ∀ a ∈ as,
      outcome_of (as.filterMap Applying.outcome) a.1.candidate.candidate_id = a.outcome
  | [], _, _, _, ha => nomatch ha
  | b :: as, hown, hnodup, a, ha => by
      obtain ⟨hb, hrest⟩ := List.forall_mem_cons.mp hown
      obtain ⟨hfresh, hnodup⟩ := List.nodup_cons.mp hnodup
      have ih := outcome_of_applyings hrest hnodup
      have hlate : ∀ o ∈ as.filterMap Applying.outcome, o.candidate_id ∈ as.map fun a =>
          a.1.candidate.candidate_id := by
        intro o ho
        obtain ⟨a', ha', houtcome⟩ := List.mem_filterMap.mp ho
        exact List.mem_map.mpr ⟨a', ha', ((hrest a' ha').candidate houtcome).symm⟩
      rcases List.mem_cons.mp ha with rfl | ha
      · -- nothing later is under the id of the first
        have hnone : (as.filterMap Applying.outcome).filter
            (fun o => o.candidate_id = a.1.candidate.candidate_id) = [] :=
          List.filter_eq_nil_iff.mpr fun o ho heq => by
            have hid := hlate o ho
            rw [of_decide_eq_true heq] at hid
            exact hfresh hid
        cases houtcome : a.outcome with
        | none => rw [List.filterMap_cons_none houtcome, outcome_of, hnone, List.getLast?_nil]
        | some o =>
            rw [List.filterMap_cons_some houtcome, outcome_of, List.filter_cons, hnone,
              if_pos (decide_eq_true (hb.candidate houtcome)), List.getLast?_singleton]
      · have hother : b.1.candidate.candidate_id ≠ a.1.candidate.candidate_id := fun heq =>
          hfresh (List.mem_map.mpr ⟨a, ha, heq.symm⟩)
        rw [← ih a ha]
        cases houtcome : b.outcome with
        | none => rw [List.filterMap_cons_none houtcome]
        | some o =>
            have hne : o.candidate_id ≠ a.1.candidate.candidate_id := (hb.candidate houtcome).symm ▸ hother
            rw [List.filterMap_cons_some houtcome, outcome_of, List.filter_cons,
              if_neg (by simpa using hne), outcome_of]

/-- The candidates that were decided on, and those that failed to be, have each their own id. -/
theorem run_ids {py : Python} {pack : Pack} {weights : ConfidenceWeights py} {betas : RiskBetas}
    {proposal : Proposal} {extracted : Extraction} {scoring : CandidateId → Call Answers}
    {result : PipelineResult} {failures : List CandidateFailure}
    (h : Orchestrator.run py deps pack weights betas proposal (.answers extracted) scoring =
      .answers (result, failures)) :
    (result.governed.map fun g => g.candidate.candidate_id).Nodup ∧
      ∀ g ∈ result.governed, ∀ f ∈ failures, f.candidate_id ≠ g.candidate.candidate_id := by
  obtain ⟨-, rfl, rfl⟩ := run_reports h
  have hnodup := @admitted_nodup py deps pack extracted
  have hgoverned : ∀ v g, governed_of (score py deps pack weights betas proposal scoring v) = some g →
      score py deps pack weights betas proposal scoring v = some (.ok g) := by
    intro v g hg
    rcases hscore : score py deps pack weights betas proposal scoring v with _ | exc | g'
    · simp [hscore, governed_of] at hg
    · simp [hscore] at hg
    · rw [hscore, governed_of_ok] at hg
      exact Option.some.inj hg ▸ rfl
  have hid : ∀ v g, governed_of (score py deps pack weights betas proposal scoring v) = some g →
      g.candidate.candidate_id = v.id := fun v g hg =>
    congrArg MemoryCandidate.candidate_id (score_pairs (hgoverned v g hg))
  refine ⟨?_, fun g hg f hf heq => ?_⟩
  · refine List.pairwise_map.mpr (List.pairwise_filterMap.mpr ((List.pairwise_map.mp hnodup).imp ?_))
    rintro v u hne g hg g' hg' heq
    exact hne ((hid v g hg).symm.trans (heq.trans (hid u g' hg')))
  · obtain ⟨v, hv, hvg⟩ := List.mem_filterMap.mp hg
    obtain ⟨u, hu, huf⟩ := List.mem_filterMap.mp hf
    rcases hscore : score py deps pack weights betas proposal scoring u with _ | exc | g'
    · simp [hscore, failure_of] at huf
    · rw [hscore, failure_of_error] at huf
      obtain rfl := Option.some.inj huf
      obtain rfl : u = v := List.inj_on_of_nodup_map hnodup hu hv (heq.trans (hid v g hvg))
      rw [hgoverned u g hvg] at hscore
      cases hscore
    · simp [hscore] at huf

/-! ### The answer -/

/-- A candidate's entry states a row: its id, and what is believed in it. The entry's confidence and risk
    are the doubles the row's `REAL` columns are rounded from. -/
structure CandidateEntry.States (entry : CandidateEntry) (tenant : TenantId) (row : AssertionRow) : Prop where
  id : entry.assertion_id = some row.id
  written : entry.decision = .AUTO_WRITE
  tenant_id : row.tenant_id = tenant
  predicate : row.predicate = entry.predicate
  object : row.object_json = entry.object.toJson

/-- An answer says what became of the tables: what was there is there, what is new is some candidate's, each
    reported id is a row's, and a candidate with neither an id nor a reason has failed. -/
structure Accurate (tenant : TenantId) (response : ProposeResponse) (db after : Db) : Prop where
  kept : ∀ old ∈ db.assertions, ∃ row ∈ after.assertions, told row = told old
  added : ∀ row ∈ after.assertions, (∃ old ∈ db.assertions, told old = told row) ∨
    ∃ entry ∈ response.candidates, entry.States tenant row
  there : ∀ entry ∈ response.candidates, ∀ aid ∈ entry.assertion_id, aid ∈ after.ids
  applied : response.applied = true ↔ ∃ entry ∈ response.candidates, ∃ aid ∈ entry.assertion_id, aid ≠ ""
  failed : ∀ entry ∈ response.candidates, (entry.assertion_id = none ∧ entry.not_applied = none) ↔
    entry.candidate_id ∈ response.failed.map Prod.fst

theorem writes_decision {g : GovernedCandidate} (h : refusal g = none) : g.record.decision = .AUTO_WRITE := by
  by_contra hother
  rw [refusal, if_pos hother] at h
  cases h

theorem Reports.states {a : Applying} {row : AssertionRow} (h : Reports deps tenant clock a row) :
    (candidate_of a.1 a.outcome).States tenant row := by
  obtain ⟨hwrites, houtcome, hrow⟩ := h
  have hfound : a.outcome = some (landed_outcome deps a.1) := by
    rw [Applying.outcome, houtcome]
    rfl
  have hfields := AssertionRow.mk.injEq .. ▸ hrow
  obtain ⟨hid, htenant, -, -, hpredicate, hobject, -⟩ := hfields
  refine ⟨?_, writes_decision hwrites, htenant, hpredicate, hobject⟩
  rw [candidate_of, hfound]
  exact congrArg some hid.symm

/-- The entry of a decision whose apply raised says nothing of a row, and no other does. -/
theorem candidate_of_silent {a : Applying} (hown : Own deps a) :
    ((candidate_of a.1 a.outcome).assertion_id = none ∧ (candidate_of a.1 a.outcome).not_applied = none) ↔
      a.outcome = none := by
  obtain ⟨g, exc | o⟩ := a
  · exact iff_of_true ⟨rfl, rfl⟩ rfl
  · refine iff_of_false (fun h => ?_) (Option.some_ne_none o)
    rcases hown with ⟨reason, rfl⟩ | rfl
    · cases h.2
    · cases h.1

/-- Each entry is one decision's, with the outcome of its apply. -/
theorem mem_entries {as : List Applying} (hown : ∀ a ∈ as, Own deps a)
    (hids : (as.map fun a => a.1.candidate.candidate_id).Nodup) {entry : CandidateEntry} :
    entry ∈ (as.map Prod.fst).map (fun g =>
      candidate_of g (outcome_of (as.filterMap Applying.outcome) g.candidate.candidate_id)) ↔
        ∃ a ∈ as, candidate_of a.1 a.outcome = entry := by
  rw [List.map_map, List.mem_map]
  refine exists_congr fun a => and_congr_right fun ha => ?_
  rw [Function.comp_apply, outcome_of_applyings hown hids a ha]

/-- A candidate is among the failures just where its apply came to nothing. -/
theorem mem_failures {as : List Applying} {failures : List CandidateFailure} {a : Applying}
    (hids : (as.map fun a => a.1.candidate.candidate_id).Nodup) (ha : a ∈ as)
    (hapart : ∀ f ∈ failures, f.candidate_id ≠ a.1.candidate.candidate_id) :
    a.1.candidate.candidate_id ∈
      (failures ++ as.filterMap Applying.failure).map CandidateFailure.candidate_id ↔ a.outcome = none := by
  simp only [List.mem_map, List.mem_append, List.mem_filterMap]
  constructor
  · rintro ⟨f, hf | ⟨b, hb, hbf⟩, hid⟩
    · exact absurd hid (hapart f hf)
    · obtain ⟨g, exc | o⟩ := b
      · obtain rfl := Option.some.inj hbf
        obtain rfl : (g, Except.error exc) = a := List.inj_on_of_nodup_map hids hb ha hid
        rfl
      · cases hbf
  · intro hnone
    obtain ⟨g, exc | o⟩ := a
    · exact ⟨_, .inr ⟨_, ha, rfl⟩, rfl⟩
    · cases hnone

/-- What governing came to, as far as its answer is about the tables. -/
theorem result_of_accurate {result : PipelineResult} {failures : List CandidateFailure} {db : Db}
    (hnodup : (result.governed.map fun g => g.candidate.candidate_id).Nodup)
    (hapart : ∀ g ∈ result.governed, ∀ f ∈ failures, f.candidate_id ≠ g.candidate.candidate_id) :
    Accurate tenant (result_of ⟨result,
      (applyings deps tenant trace clock result.governed db).1.filterMap Applying.outcome,
      failures ++ (applyings deps tenant trace clock result.governed db).1.filterMap Applying.failure⟩) db
      (applyings deps tenant trace clock result.governed db).2 := by
  obtain ⟨hkept, hadded, hthere⟩ := @applyings_written deps tenant trace clock result.governed db
  have hown := @applyings_own deps tenant trace clock result.governed db
  have hgs := @map_applyings deps tenant trace clock result.governed db
  set as := (applyings deps tenant trace clock result.governed db).1
  have hids : (as.map fun a => a.1.candidate.candidate_id).Nodup := by
    rw [← hgs, List.map_map] at hnodup
    exact hnodup
  have hentries : ∀ entry, entry ∈ result.governed.map (fun g =>
      candidate_of g (outcome_of (as.filterMap Applying.outcome) g.candidate.candidate_id)) ↔
        ∃ a ∈ as, candidate_of a.1 a.outcome = entry := fun entry => by
    rw [← hgs]
    exact mem_entries hown hids
  refine ⟨hkept, fun row hrow => ?_, fun entry hentry aid haid => ?_, ?_, fun entry hentry => ?_⟩
  · rcases hadded row hrow with hold | ⟨a, ha, hreports⟩
    · exact .inl hold
    · exact .inr ⟨_, (hentries _).mpr ⟨a, ha, rfl⟩, hreports.states⟩
  · obtain ⟨a, ha, rfl⟩ := (hentries entry).mp hentry
    obtain ⟨o, ho, haid⟩ := Option.bind_eq_some_iff.mp haid
    obtain ⟨g, exc | o'⟩ := a
    · cases ho
    · obtain rfl := Option.some.inj ho
      rcases hown _ ha with ⟨reason, rfl⟩ | rfl
      · cases haid
      · rw [landed_outcome, Option.some.injEq] at haid
        exact haid ▸ hthere (g, .ok (landed_outcome deps g)) ha rfl
  · simp only [result_of, List.any_eq_true, Option.any_eq_true, decide_eq_true_eq]
    constructor
    · rintro ⟨o, ho, aid, haid, hne⟩
      obtain ⟨a, ha, houtcome⟩ := List.mem_filterMap.mp ho
      exact ⟨_, (hentries _).mpr ⟨a, ha, rfl⟩, aid, Option.bind_eq_some_iff.mpr ⟨o, houtcome, haid⟩, hne⟩
    · rintro ⟨entry, hentry, aid, haid, hne⟩
      obtain ⟨a, ha, rfl⟩ := (hentries entry).mp hentry
      obtain ⟨o, houtcome, haid⟩ := Option.bind_eq_some_iff.mp haid
      exact ⟨o, List.mem_filterMap.mpr ⟨a, ha, houtcome⟩, aid, haid, hne⟩
  · obtain ⟨a, ha, rfl⟩ := (hentries entry).mp hentry
    have hmem : a.1 ∈ result.governed := hgs ▸ List.mem_map_of_mem ha
    rw [candidate_of_silent (hown a ha), ← mem_failures hids ha (hapart a.1 hmem), result_of, List.map_map]
    exact Iff.rfl

open Clinical

def desk : CallReaders where
  UUID _ := true
  fromisoformat _ := none
  isoformat _ := ""
  repr s := s
  type_name _ := "str"
  strip s := s
  str_number _ := ""
  str_object _ := ""
  repr_json _ := ""
  msg _ := ""

theorem spanish_short : "speak Spanish".length ≤ 2000 := by decide

/-- A server of the clinic whose model hears the patient's language. -/
def clinic : ServerState python fun _ => "" where
  settings := ⟨"clinic", "patient:1"⟩
  llm_provider := "ollama"
  llm := some (scribe .reference [speaks "es" "speak Spanish" spanish_short])
  graph := .networkx ⟨⟨[], []⟩, NetworkX.Kept.empty⟩
  deps := Clinical.deps
  pack := clinical_pack
  weights := V1_WEIGHTS
  betas := V1_BETAS
  embed _ := [1]

/-- Every call answers, and the span entails the claim. -/
def spoken : Occasion where
  trace_id := "tr_1"
  now := 5
  reading := .answers ()
  entity_plan := .exact
  plans := fun _ => .exact
  scoring := fun _ _ => .answers ⟨0, 1, [], 0, Db.empty⟩
  clock := fun _ => ⟨6, 7, 8⟩

def asked : JsonObj := .ofList [("content", .str "All of us at home speak Spanish"),
  ("source_tier", .str "verified_user"), ("risk_hint", .str "low"), ("mode", .str "strict")]

end GuardMem.Tools
