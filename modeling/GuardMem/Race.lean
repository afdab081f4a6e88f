import GuardMem.Clinical

/-! Applies that race for one incumbent.

    `UPDATE ... WHERE id = old AND valid_to IS NULL` lets one of them through. CORRECT: of the applies
    of a run that name a live incumbent and pass the table's constraints the first commits and every
    other loses without a trace, and what is retired stays as it is (`supersession_linear`). Without
    the constraints none need win: an incumbent that begins later than it is superseded cannot be
    retired (`none_wins`). -/

namespace GuardMem

open Lib.Transition

variable {G : Type} {env : Env G} {w w' : World G} {l : Label} {old : AssertionId}

/-- One apply of a run, with the database on either side of it. -/
structure Attempt where
  tenant : TenantId
  trace : TraceId
  clock : ApplyClock
  governed : GovernedCandidate
  before : Db
  after : Db

/-- What it came to. -/
def Attempt.result (deps : Deps) (a : Attempt) : Except Exc Applied :=
  (apply deps a.tenant a.trace a.clock a.governed a.before).map Prod.fst

/-- It writes, and asks for `old` to be superseded. -/
def Attempt.names (old : AssertionId) (a : Attempt) : Bool :=
  (refusal a.governed).isNone && retires a.governed == some old

/-- The apply a step makes. -/
def attempt (w w' : World G) : Label → Option Attempt
  | .apply d clock => do
      let x ← w.deliveries[d]?
      let (g, _, _) ← next_apply x.slots
      some ⟨x.tenant, x.trace, clock, g, w.db, w'.db⟩
  | _ => none

/-- The applies of a run that name `old`, in order. -/
def attempts (env : Env G) (old : AssertionId) : World G → List Label → List Attempt
  | _, [] => []
  | w, l :: ls =>
      match step env w l with
      | none => []
      | some w' => (attempt w w' l).toList.filter (Attempt.names old) ++ attempts env old w' ls

/-- What the tables' constraints ask of an apply that would retire `r`: an id that is not `r`'s own nor
    held for another tenant, and a clock not before `r` begins. -/
structure Attempt.Admitted (deps : Deps) (r : AssertionRow) (a : Attempt) : Prop where
  other : assertion_id deps.uuid a.governed ≠ r.id
  own : assertion_id deps.uuid a.governed ∉ a.before.ids ∨
    a.before.sees a.tenant (assertion_id deps.uuid a.governed)
  begun : r.valid_from ≤ a.clock.applied_at

theorem admitted_iff {deps : Deps} {r : AssertionRow} {a : Attempt} : a.Admitted deps r ↔
    assertion_id deps.uuid a.governed ≠ r.id ∧
      (assertion_id deps.uuid a.governed ∉ a.before.ids ∨
        a.before.sees a.tenant (assertion_id deps.uuid a.governed)) ∧
      r.valid_from ≤ a.clock.applied_at :=
  ⟨fun h => ⟨h.1, h.2, h.3⟩, fun h => ⟨h.1, h.2.1, h.2.2⟩⟩

instance (deps : Deps) (r : AssertionRow) (a : Attempt) : Decidable (a.Admitted deps r) :=
  decidable_of_iff' _ admitted_iff

/-- It committed: its successor is stored and the incumbent points at it. -/
structure Attempt.Won (deps : Deps) (old : AssertionId) (a : Attempt) : Prop where
  commits : a.result deps = .ok (landed_outcome deps a.governed)
  successor : assertion_id deps.uuid a.governed ∈ a.after.ids
  retires : ∃ r ∈ a.after.assertions, r.id = old ∧ r.valid_to = some a.clock.applied_at ∧
    r.superseded_by = some (assertion_id deps.uuid a.governed)

/-- It lost the race and left all four tables as they were. -/
structure Attempt.Lost (deps : Deps) (old : AssertionId) (a : Attempt) : Prop where
  raises : a.result deps = .error (.ConcurrencyConflict (conflict_message a.tenant old))
  untouched : a.after = a.before

/-- One of them won and every other lost. -/
def ExactlyOne (deps : Deps) (old : AssertionId) (as : List Attempt) : Prop :=
  ∃ pre a post, as = pre ++ a :: post ∧ a.Won deps old ∧ ∀ b ∈ pre ++ post, b.Lost deps old

theorem attempts_cons {ls : List Label} (h : step env w l = some w') :
    attempts env old w (l :: ls) =
      (attempt w w' l).toList.filter (Attempt.names old) ++ attempts env old w' ls := by
  simp only [attempts, h]

/-- What an attempt of a run is. -/
theorem attempt_some {a : Attempt} (h : attempt w w' l = some a) :
    ∃ d x seen rest, l = .apply d a.clock ∧ w.deliveries[d]? = some x ∧ x.tenant = a.tenant ∧
      x.trace = a.trace ∧ next_apply x.slots = some (a.governed, seen, rest) ∧ a.before = w.db ∧
      a.after = w'.db := by
  cases l with
  | apply d clock =>
      simp only [attempt, Option.bind_eq_bind, Option.bind_eq_some_iff] at h
      obtain ⟨x, hx, ⟨g, seen, rest⟩, hnext, h⟩ := h
      obtain rfl := Option.some.inj h
      exact ⟨d, x, seen, rest, rfl, hx, rfl, rfl, hnext, rfl, rfl⟩
  | _ => cases h

theorem names_iff {a : Attempt} :
    a.names old = true ↔ refusal a.governed = none ∧ retires a.governed = some old := by
  simp [Attempt.names]

/-- The step of an attempt leaves what its apply returned, or the database as it was. -/
theorem attempt_after {a : Attempt} (h : step env w l = some w') (ha : attempt w w' l = some a) :
    a.after = match apply env.deps a.tenant a.trace a.clock a.governed a.before with
      | .ok (_, db) => db
      | .error _ => a.before := by
  obtain ⟨d, x, seen, rest, rfl, hx, htenant, htrace, hnext, hbefore, hafter⟩ := attempt_some ha
  simp only [step, step_apply, hx, hnext, Option.bind_eq_bind, Option.bind_some] at h
  rw [hbefore, hafter, ← htenant, ← htrace]
  split at h
  · next o db happly =>
      have happly : apply env.deps x.tenant x.trace a.clock a.governed w.db = .ok (o, db) := happly
      rw [happly]
      exact congrArg World.db (Option.some.inj h).symm
  · next exc happly =>
      have happly : apply env.deps x.tenant x.trace a.clock a.governed w.db = .error exc := happly
      rw [happly, ← Option.some.inj h]
      rfl

/-- A failed apply leaves the four tables as they were, whatever it failed on. -/
theorem attempt_failed {exc : Exc} : ∀ {ls : List Label} {w : World G},
    ∀ a ∈ attempts env old w ls, a.result env.deps = .error exc → a.after = a.before
  | [], _, a, ha, _ => absurd ha List.not_mem_nil
  | l :: ls, w, a, ha, hres => by
      cases hstep : step env w l with
      | none => simp [attempts, hstep] at ha
      | some w' =>
          rw [attempts_cons hstep] at ha
          rcases List.mem_append.mp ha with ha | ha
          · have ha := Option.mem_toList.mp (List.mem_filter.mp ha).1
            rw [attempt_after hstep ha]
            unfold Attempt.result at hres
            cases happly : apply env.deps a.tenant a.trace a.clock a.governed a.before with
            | error _ => rfl
            | ok _ => rw [happly] at hres; cases hres
          · exact attempt_failed a ha hres

/-- After the incumbent is retired, naming it loses. -/
theorem attempt_lost {a : Attempt} (hstep : step env w l = some w') (hi : Wf env.deps.uuid w.db)
    (ha : attempt w w' l = some a) (hname : a.names old = true)
    (hold : ∃ r ∈ w.db.assertions, r.id = old ∧ r.valid_to ≠ none)
    (hown : assertion_id env.deps.uuid a.governed ∉ a.before.ids ∨
      a.before.sees a.tenant (assertion_id env.deps.uuid a.governed)) : a.Lost env.deps old := by
  obtain ⟨hw, hret⟩ := names_iff.mp hname
  obtain ⟨_, _, _, _, -, -, -, -, -, hbefore, -⟩ := attempt_some ha
  obtain ⟨r, hr, rfl, hretired⟩ := hold
  have hlost : apply env.deps a.tenant a.trace a.clock a.governed a.before =
      .error (.ConcurrencyConflict (conflict_message a.tenant r.id)) := by
    refine apply_lost hw hret hown (hbefore ▸ mem_ids hr) fun q hq => ?_
    refine Bool.eq_false_iff.mpr fun hs => hretired ?_
    obtain ⟨hid, hlive, -⟩ := supersedes_iff.mp hs
    exact hi.eq_of_id (hbefore ▸ hq) hr hid ▸ hlive
  refine ⟨by rw [Attempt.result, hlost]; rfl, ?_⟩
  rw [attempt_after hstep ha, hlost]

/-- While the incumbent is live, the next admitted apply that names it retires it. -/
theorem attempt_won {a : Attempt} (hstep : step env w l = some w') (hi : Wf env.deps.uuid w.db)
    (hs : SlotsOk w) (ha : attempt w w' l = some a) {r : AssertionRow} (hr : r ∈ w.db.assertions)
    (hlive : r.valid_to = none) (hname : a.names r.id = true) (hadm : a.Admitted env.deps r) :
    a.Won env.deps r.id := by
  obtain ⟨hw, hret⟩ := names_iff.mp hname
  obtain ⟨d, x, seen, rest, -, hx, htenant, -, hnext, hbefore, -⟩ := attempt_some ha
  have hafter := attempt_after hstep ha
  obtain ⟨tenant, trace, clock, g, before, after⟩ := a
  dsimp only at hw hret hx htenant hnext hbefore hafter hadm ⊢
  subst hbefore htenant
  -- the incumbent was found under the proposal's own tenant
  have ht : r.tenant_id = x.tenant := by
    obtain ⟨-, q, hq, hid, hkey, -⟩ := (hs.next hx hnext).2 r.id hret
    rw [hi.eq_of_id hq hr hid] at hkey
    exact (Prod.mk.inj hkey).1
  have hl : Lands env.deps x.tenant clock g w.db := by
    refine ⟨hw, hadm.own, fun old hold => ?_⟩
    obtain rfl := Option.some.inj (hret.symm.trans hold)
    exact ⟨hadm.other.symm, r, hr, supersedes_iff.mpr ⟨rfl, hlive, ht⟩, hadm.begun⟩
  have happly : apply env.deps x.tenant trace clock g w.db =
      .ok (landed_outcome env.deps g, landed env.deps x.tenant trace clock g w.db) :=
    (apply_writes_ok hi hw).mpr ⟨hl, rfl, rfl⟩
  rw [happly] at hafter
  dsimp only at hafter
  subst hafter
  refine ⟨by simp only [Attempt.result, happly]; rfl, ?_, ?_⟩
  · by_cases hnew : assertion_id env.deps.uuid g ∈ w.db.ids
    · obtain ⟨q, hq, hid⟩ := List.mem_map.mp hnew
      obtain ⟨q', hq', hqq⟩ := landed_evolves.rows q hq
      exact List.mem_map.mpr ⟨q', hq', hqq.id.trans hid⟩
    · exact mem_ids ((mem_landed hi hl).mpr (.fresh hnew))
  · exact ⟨_, (mem_landed hi hl).mpr (.retired hr hret hlive ht), rfl, rfl, rfl⟩

/-- Over a run, every admitted apply that names a retired row loses. -/
theorem attempts_lost {r : AssertionRow} : ∀ {ls : List Label} {w : World G},
    Wf env.deps.uuid w.db → (∃ q ∈ w.db.assertions, q.id = r.id ∧ q.valid_to ≠ none) →
    (∀ a ∈ attempts env r.id w ls, a.Admitted env.deps r) →
    ∀ a ∈ attempts env r.id w ls, a.Lost env.deps r.id
  | [], _, _, _, _, a, ha => absurd ha List.not_mem_nil
  | l :: ls, w, hi, hold, hadm, a, ha => by
      cases hstep : step env w l with
      | none => simp [attempts, hstep] at ha
      | some w' =>
          rw [attempts_cons hstep] at ha hadm
          rcases List.mem_append.mp ha with hnow | hlater
          · obtain ⟨hsome, hname⟩ := List.mem_filter.mp hnow
            exact attempt_lost hstep hi (Option.mem_toList.mp hsome) hname hold (hadm a ha).own
          · refine attempts_lost (step_wf hstep hi) ?_
              (fun b hb => hadm b (List.mem_append_right _ hb)) a hlater
            obtain ⟨q, hq, hid, hretired⟩ := hold
            obtain ⟨q', hq', hqq⟩ := (step_evolves hstep hi).rows q hq
            exact ⟨q', hq', hqq.id.trans hid, (hqq.retired hretired).1 ▸ hretired⟩

/-- Over a run, of the admitted applies that name a live row the first wins and the others lose. -/
theorem attempts_exactlyOne {r : AssertionRow} : ∀ {ls : List Label} {w : World G} {q : AssertionRow},
    Wf env.deps.uuid w.db → SlotsOk w → q ∈ w.db.assertions → RowStep r q → q.valid_to = none →
    (∀ a ∈ attempts env r.id w ls, a.Admitted env.deps r) → attempts env r.id w ls ≠ [] →
    ExactlyOne env.deps r.id (attempts env r.id w ls)
  | [], _, _, _, _, _, _, _, _, hne => absurd rfl hne
  | l :: ls, w, q, hi, hs, hq, hrq, hlive, hadm, hne => by
      cases hstep : step env w l with
      | none => simp [attempts, hstep] at hne
      | some w' =>
          rw [attempts_cons hstep] at hadm hne ⊢
          have hi' := step_wf hstep hi
          cases hnow : (attempt w w' l).toList.filter (Attempt.names r.id) with
          | nil =>
              -- no rival moves in this step, so the row stays live over it
              rw [hnow, List.nil_append] at hadm hne
              rw [List.nil_append]
              have hkept : ∀ p ∈ landing env w l, retires p.governed ≠ some q.id := by
                intro p hp hret
                obtain ⟨d, x, rest, rfl, hx, _, _, hnext, hl⟩ := landing_some hp
                have ha : attempt w w' (.apply d p.clock) =
                    some ⟨x.tenant, x.trace, p.clock, p.governed, w.db, w'.db⟩ := by
                  simp [attempt, hx, hnext]
                rw [hrq.id] at hret
                simp [ha, Attempt.names, hl.writes, hret] at hnow
              obtain ⟨q', hq', hqq, hend⟩ := step_keeps_end hstep hi hq hkept
              have hlive' := hend.trans hlive
              exact attempts_exactlyOne hi' (step_slotsOk hstep hi hs) hq' (hrq.trans hqq) hlive'
                hadm hne
          | cons a as =>
              obtain ⟨hsome, hname⟩ := List.mem_filter.mp (hnow ▸ List.mem_cons_self : a ∈ _)
              have ha := Option.mem_toList.mp hsome
              have has : as = [] := by
                have hlen := List.length_filter_le (Attempt.names r.id) (attempt w w' l).toList
                rw [hnow, ha] at hlen
                simpa using hlen
              subst has
              rw [hnow] at hadm
              have hadma : a.Admitted env.deps q := by
                obtain ⟨hother, hown, hbegun⟩ := hadm a (List.mem_append_left _ List.mem_cons_self)
                refine ⟨hrq.id ▸ hother, hown, ?_⟩
                rw [hrq.facts]
                exact hbegun
              have hwon := attempt_won hstep hi hs ha hq hlive (hrq.id ▸ hname) hadma
              rw [hrq.id] at hwon
              refine ⟨[], a, attempts env r.id w' ls, rfl, hwon, fun b hb => ?_⟩
              obtain ⟨_, _, _, _, -, -, -, -, -, -, hafter⟩ := attempt_some ha
              obtain ⟨q', hq', hid, hv, -⟩ := hwon.retires
              refine attempts_lost hi' ⟨q', hafter ▸ hq', hid, by rw [hv]; simp⟩
                (fun c hc => hadm c (List.mem_append_right _ hc)) b hb

/-- CORRECT: from any reachable state, over any run. Of the applies that name a live incumbent, all of
    them admitted, exactly one wins and every other loses; a failed apply changes nothing, for the
    tables or for the rest of its proposal; a retired row is final. -/
theorem supersession_linear (env : Env G) {ls : List Label} {w : World G}
    (h : run (step env) env.init ls = some w) :
    (∀ r ∈ w.db.assertions, r.valid_to = none → ∀ ms,
      (∀ a ∈ attempts env r.id w ms, a.Admitted env.deps r) → attempts env r.id w ms ≠ [] →
      ExactlyOne env.deps r.id (attempts env r.id w ms)) ∧
    (∀ old ms, ∀ a ∈ attempts env old w ms, ∀ exc, a.result env.deps = .error exc →
      a.after = a.before) ∧
    (∀ tenant trace item exc pre post,
      apply env.deps tenant trace item.2 item.1
        (apply_all env.deps tenant trace pre w.db).2.2 = .error exc →
      (apply_all env.deps tenant trace (pre ++ item :: post) w.db).1 =
          (apply_all env.deps tenant trace (pre ++ post) w.db).1 ∧
        (apply_all env.deps tenant trace (pre ++ item :: post) w.db).2.2 =
          (apply_all env.deps tenant trace (pre ++ post) w.db).2.2 ∧
        ⟨item.1.candidate.candidate_id, exc⟩ ∈
          (apply_all env.deps tenant trace (pre ++ item :: post) w.db).2.1) ∧
    (∀ r ∈ w.db.assertions, r.valid_to ≠ none → ∀ ms w', run (step env) w ms = some w' →
      ∃ r' ∈ w'.db.assertions, r'.id = r.id ∧ r'.valid_to = r.valid_to ∧
        r'.superseded_by = r.superseded_by) := by
  obtain ⟨hi, hs⟩ := run_ok h
  refine ⟨?_, ?_, ?_, ?_⟩
  · intro r hr hlive ms hadm hne
    exact attempts_exactlyOne hi hs hr (.refl r) hlive hadm hne
  · intro old ms a ha exc hexc
    exact attempt_failed a ha hexc
  · intro tenant trace item exc pre post hexc
    exact apply_all_failed hexc
  · intro r hr hretired ms w' hrun
    obtain ⟨r', hr', hstep⟩ := (run_evolves hrun hi).rows r hr
    obtain ⟨hv, hs⟩ := hstep.retired hretired
    exact ⟨r', hr', hstep.id, hv, hs⟩

section Clinical

open GuardMem.Clinical

/-- A language said at `said_at` is stored and revealed; two proposals are then scored against it. -/
def two_rivals (said_at : Time) : List Label :=
  [proposal "t" [language "t" "c_1" "French" said_at], scored 0 0, applied 0 20] ++
    dispatched 0 (row_id "t" "c_1") 30 ++
  [proposal "u" [language "u" "c_1" "German" 35], proposal "v" [language "v" "c_1" "Spanish" 35],
    scored 1 0, scored 2 0]

/-- Both are applied. -/
def race : List Label := [applied 1 40, applied 2 41]

theorem one_wins : ∃ w r, run (step Clinical.env) Clinical.env.init (two_rivals 10) = some w ∧
    r ∈ w.db.assertions ∧ (attempts Clinical.env r.id w race).length = 2 ∧
    ExactlyOne Clinical.deps r.id (attempts Clinical.env r.id w race) := by
  have hrun : ∃ w ∈ run (step Clinical.env) Clinical.env.init (two_rivals 10),
      ∃ r ∈ w.db.assertions, r.valid_to = none ∧
        (attempts Clinical.env r.id w race).length = 2 ∧
        ∀ a ∈ attempts Clinical.env r.id w race, a.Admitted Clinical.deps r := by
    decide +kernel
  obtain ⟨w, hw, r, hr, hlive, hlen, hadm⟩ := hrun
  refine ⟨w, r, hw, hr, hlen, ?_⟩
  exact (supersession_linear Clinical.env hw).1 r hr hlive race hadm fun h => by simp [h] at hlen

/-- What an attempt raised. -/
def Attempt.failure (deps : Deps) (a : Attempt) : Option Exc :=
  match a.result deps with
  | .ok _ => none
  | .error exc => some exc

/-- Said at 100, the incumbent begins after both rivals' clocks: a CHECK refuses either of them. -/
theorem none_wins : ¬ ∀ ls ms w, run (step Clinical.env) Clinical.env.init ls = some w →
    ∀ r ∈ w.db.assertions, r.valid_to = none →
      ((attempts Clinical.env r.id w ms).map fun a => assertion_id uuid a.governed).Nodup →
      attempts Clinical.env r.id w ms ≠ [] →
      ExactlyOne Clinical.deps r.id (attempts Clinical.env r.id w ms) := by
  have hrun : ∃ w ∈ run (step Clinical.env) Clinical.env.init (two_rivals 100),
      ∃ r ∈ w.db.assertions, r.valid_to = none ∧
        ((attempts Clinical.env r.id w race).map fun a => assertion_id uuid a.governed).Nodup ∧
        (attempts Clinical.env r.id w race).map (Attempt.failure Clinical.deps) =
          [some (.CheckViolation "assertion_validity_not_inverted"),
           some (.CheckViolation "assertion_validity_not_inverted")] := by
    decide +kernel
  obtain ⟨w, hw, r, hr, hlive, hnd, hfail⟩ := hrun
  intro h
  obtain ⟨pre, a, post, heq, hwon, -⟩ :=
    h (two_rivals 100) race w hw r hr hlive hnd fun hnil => by simp [hnil] at hfail
  have hmem : a.failure Clinical.deps ∈
      (attempts Clinical.env r.id w race).map (Attempt.failure Clinical.deps) := by
    rw [heq]
    exact List.mem_map_of_mem (List.mem_append_right _ List.mem_cons_self)
  rw [hfail, Attempt.failure, hwon.commits] at hmem
  simp at hmem

end Clinical

end GuardMem
