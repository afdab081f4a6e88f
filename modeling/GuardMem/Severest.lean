import GuardMem.LoneClaim
import GuardMem.Pipeline.Judge
import Mathlib.Data.List.Perm.Basic

/-! Which of many incumbents a conflict report is about.

    Every pair is classified and the severest is reported, the nearest among equals. CORRECT: past the
    deterministic checks the report is that pair's own, a doubt about any incumbent escalates, and the
    order of the pairs changes neither kind nor hint; a `ONE` predicate reports its nearest differing
    incumbent exactly where there is one (`severest_reported`). -/

namespace GuardMem

/-- What the table says of one incumbent. -/
def row_of (candidate : MemoryCandidate) (hit : ScoredAssertion) (judgement : Judgement) : Resolution :=
  classify hit.cosine.1 judgement (restates candidate hit.assertion)

/-- The pairs with their rows, as `adjudicate` ranks them. -/
def ranked (candidate : MemoryCandidate) (incumbents : List ScoredAssertion) (judgements : List Judgement) :
    List (Resolution × ScoredAssertion × Judgement) :=
  (incumbents.zip judgements).map fun p => (row_of candidate p.1 p.2, p)

variable {α : Type*} {xs ys : List (Resolution × α)} {x y : Resolution × α} {candidate : MemoryCandidate}
  {incumbents incumbents' : List ScoredAssertion} {judgements judgements' : List Judgement}
  {spec : PredicateSpec} {r r' : ConflictReport} {hit : ScoredAssertion} {judgement : Judgement}

/-! ### The severest pair -/

theorem most_severe_cons : most_severe (x :: xs) = some (match most_severe xs with
    | none => x
    | some y => if severity x.1 ≤ severity y.1 then x else y) := by
  rw [most_severe]
  cases most_severe xs with
  | none => rfl
  | some y => exact (apply_ite some _ _ _).symm

/-- It stands before every pair that is as severe, and none is severer. -/
theorem most_severe_spec : ∀ {xs : List (Resolution × α)} {x : Resolution × α}, most_severe xs = some x →
    ∃ i, xs[i]? = some x ∧ ∀ (k : ℕ) (y : Resolution × α), xs[k]? = some y →
      severity x.1 ≤ severity y.1 ∧ (k < i → severity x.1 < severity y.1)
  | [], x, h => by simp [most_severe] at h
  | z :: zs, x, h => by
      rw [most_severe] at h
      cases hrest : most_severe zs with
      | none =>
          rw [hrest] at h
          obtain rfl := Option.some.inj h
          have hnil : zs = [] := by
            rcases zs with _ | ⟨w, ws⟩
            · rfl
            · rw [most_severe_cons] at hrest
              cases hrest
          refine ⟨0, rfl, fun k y hy => ?_⟩
          rcases k with _ | k
          · obtain rfl := Option.some.inj hy
            exact ⟨le_rfl, fun hk => absurd hk (Nat.lt_irrefl 0)⟩
          · simp [hnil] at hy
      | some w =>
          rw [hrest] at h
          obtain ⟨i, hi, hmin⟩ := most_severe_spec hrest
          dsimp only at h
          split_ifs at h with hle
          · obtain rfl := Option.some.inj h
            refine ⟨0, rfl, fun k y hy => ?_⟩
            rcases k with _ | k
            · obtain rfl := Option.some.inj hy
              exact ⟨le_rfl, fun hk => absurd hk (Nat.lt_irrefl 0)⟩
            · exact ⟨hle.trans (hmin k y hy).1, fun hk => absurd hk (Nat.not_lt_zero _)⟩
          · obtain rfl := Option.some.inj h
            refine ⟨i + 1, hi, fun k y hy => ?_⟩
            rcases k with _ | k
            · obtain rfl := Option.some.inj hy
              exact ⟨(not_le.mp hle).le, fun _ => not_le.mp hle⟩
            · exact ⟨(hmin k y hy).1, fun hk => (hmin k y hy).2 (Nat.lt_of_succ_lt_succ hk)⟩

theorem most_severe_total (hne : xs ≠ []) : ∃ x, most_severe xs = some x := by
  rcases xs with _ | ⟨x, xs⟩
  · exact absurd rfl hne
  · exact ⟨_, most_severe_cons⟩

/-- The rows a table can give have each a place of its own in the precedence. -/
theorem classify_mem (cosine : ℚ) (j : Judgement) (restates : Bool) :
    classify cosine j restates ∈ Resolution.PRECEDENCE := by
  unfold classify
  split_ifs <;> decide

theorem severity_inj {a b : Resolution} (ha : a ∈ Resolution.PRECEDENCE)
    (h : severity a = severity b) : a = b :=
  (List.idxOf_inj ha).mp h

/-- Any order of the pairs has the same severest row. -/
theorem most_severe_perm (h : xs.Perm ys) (hrows : ∀ z ∈ xs, z.1 ∈ Resolution.PRECEDENCE)
    (hx : most_severe xs = some x) (hy : most_severe ys = some y) : x.1 = y.1 := by
  obtain ⟨i, hi, hminx⟩ := most_severe_spec hx
  obtain ⟨j, hj, hminy⟩ := most_severe_spec hy
  obtain ⟨k, hk⟩ := List.mem_iff_getElem?.mp (h.mem_iff.mp (List.mem_of_getElem? hi))
  obtain ⟨l, hl⟩ := List.mem_iff_getElem?.mp (h.mem_iff.mpr (List.mem_of_getElem? hj))
  exact severity_inj (hrows x (List.mem_of_getElem? hi))
    (le_antisymm (hminx l y hl).1 (hminy k x hk).1)

/-! ### Doubt -/

/-- A row escalates exactly where the judge doubts. -/
theorem classify_escalates (cosine : ℚ) (j : Judgement) (restates : Bool) :
    (classify cosine j restates).resolution_hint = .escalate ↔ AMBIGUOUS_FLOOR ≤ j.contradiction.1 := by
  unfold classify
  split_ifs with h1 h2 h3 h4 h5
  · exact iff_of_true rfl (le_trans (by norm_num [AMBIGUOUS_FLOOR, CONTRADICTION_FLOOR]) h1)
  · exact iff_of_true rfl h2
  all_goals exact iff_of_false (by decide) h2

/-- The escalations head the precedence. -/
theorem escalate_severest : ∀ a ∈ Resolution.PRECEDENCE, ∀ b ∈ Resolution.PRECEDENCE,
    b.resolution_hint = .escalate → severity a ≤ severity b → a.resolution_hint = .escalate := by
  decide

/-! ### The report -/

theorem ranked_get {i : ℕ} {z : Resolution × ScoredAssertion × Judgement} :
    (ranked candidate incumbents judgements)[i]? = some z ↔
      ∃ hit judgement, incumbents[i]? = some hit ∧ judgements[i]? = some judgement ∧
        z = (row_of candidate hit judgement, hit, judgement) := by
  simp only [ranked, List.getElem?_map, Option.map_eq_some_iff, List.getElem?_zip_eq_some, Prod.exists]
  constructor
  · rintro ⟨hit, judgement, ⟨hi, hj⟩, rfl⟩
    exact ⟨hit, judgement, hi, hj, rfl⟩
  · rintro ⟨hit, judgement, hi, hj, rfl⟩
    exact ⟨hit, judgement, ⟨hi, hj⟩, rfl⟩

theorem ranked_rows : ∀ z ∈ ranked candidate incumbents judgements, z.1 ∈ Resolution.PRECEDENCE := by
  intro z hz
  obtain ⟨p, -, rfl⟩ := List.mem_map.mp hz
  exact classify_mem _ _ _

variable (candidate) in
/-- With a judgement for each incumbent there is a report, and it is the severest pair's. -/
theorem adjudicate_ok (hne : incumbents ≠ []) (hlength : judgements.length = incumbents.length) :
    ∃ z, most_severe (ranked candidate incumbents judgements) = some z ∧
      adjudicate candidate incumbents judgements = .ok (report z.1 z.2.1 (some z.2.2)) := by
  have hranked : ranked candidate incumbents judgements ≠ [] := by
    intro hnil
    have hlen := congrArg List.length hnil
    rw [ranked, List.length_map, List.length_zip, hlength, Nat.min_self, List.length_nil] at hlen
    exact hne (List.length_eq_zero_iff.mp hlen)
  obtain ⟨⟨row, hit, judgement⟩, hz⟩ := most_severe_total hranked
  refine ⟨_, hz, ?_⟩
  have hzip : most_severe ((incumbents.zip judgements).map fun p =>
      (classify p.1.cosine.1 p.2 (restates candidate p.1.assertion), p)) = some (row, hit, judgement) := hz
  rw [adjudicate, if_neg (by simp [hlength])]
  simp only [hzip]

variable (candidate spec) in
theorem answered_early_perm (h : incumbents'.Perm incumbents) :
    AnsweredEarly candidate incumbents' spec = AnsweredEarly candidate incumbents spec := by
  have hfind : ∀ p : ScoredAssertion → Bool, (incumbents'.find? p).isSome = (incumbents.find? p).isSome := by
    intro p
    rw [Bool.eq_iff_iff, List.find?_isSome, List.find?_isSome]
    simp only [h.mem_iff]
  unfold AnsweredEarly live_incumbent first_overlap
  cases spec.cardinality with
  | ONE => exact hfind _
  | MANY => rfl
  | ONE_PER_TIME => exact hfind _

/-- The pairs in another order: the same kind and the same hint. -/
theorem detect_perm (hne : incumbents ≠ []) (hearly : AnsweredEarly candidate incumbents spec = false)
    (hlength : judgements.length = incumbents.length) (hlength' : judgements'.length = incumbents'.length)
    (hperm : (incumbents'.zip judgements').Perm (incumbents.zip judgements))
    (hr : detect candidate incumbents spec judgements = .ok r) :
    ∃ r', detect candidate incumbents' spec judgements' = .ok r' ∧ r'.kind = r.kind ∧
      r'.resolution_hint = r.resolution_hint := by
  have hincumbents : incumbents'.Perm incumbents := by
    have hfst := hperm.map Prod.fst
    rwa [List.map_fst_zip hlength'.ge, List.map_fst_zip hlength.ge] at hfst
  have hne' : incumbents' ≠ [] := by
    rintro rfl
    exact hne hincumbents.nil_eq.symm
  have hearly' := (answered_early_perm candidate spec hincumbents).trans hearly
  obtain ⟨z, hz, hreport⟩ := adjudicate_ok candidate hne hlength
  obtain ⟨z', hz', hreport'⟩ := adjudicate_ok candidate hne' hlength'
  have hrow : z'.1 = z.1 := most_severe_perm (hperm.map _) ranked_rows hz' hz
  rw [detect_undecided hne hearly, hreport] at hr
  obtain rfl := Except.ok.inj hr
  refine ⟨_, (detect_undecided hne' hearly' judgements').trans hreport', ?_, ?_⟩
  · exact congrArg Resolution.kind hrow
  · exact congrArg Resolution.resolution_hint hrow

/-- A table row is no cardinality conflict. -/
theorem classify_kind (cosine : ℚ) (j : Judgement) (restates : Bool) :
    (classify cosine j restates).kind ≠ .CARDINALITY := by
  unfold classify
  split_ifs <;> decide

theorem adjudicate_kind (h : adjudicate candidate incumbents judgements = .ok r) : r.kind ≠ .CARDINALITY := by
  rcases eq_or_ne judgements.length incumbents.length with hlength | hlength
  · rcases eq_or_ne incumbents [] with rfl | hne
    · obtain rfl := List.length_eq_zero_iff.mp hlength
      cases h
    · obtain ⟨z, hz, hreport⟩ := adjudicate_ok candidate hne hlength
      obtain rfl := Except.ok.inj (hreport.symm.trans h)
      obtain ⟨p, -, rfl⟩ := List.mem_map.mp (most_severe_mem hz)
      exact classify_kind _ _ _
  · rw [adjudicate, if_pos hlength.symm] at h
    cases h

/-- A `ONE` predicate with an incumbent that differs reports the nearest such one. -/
theorem detect_one (hone : spec.cardinality = .ONE) :
    (∀ hit, live_incumbent incumbents candidate.object = some hit →
      detect candidate incumbents spec judgements = .ok (report .CARDINALITY hit none)) ∧
    (live_incumbent incumbents candidate.object = none →
      ∀ r, detect candidate incumbents spec judgements = .ok r → r.kind ≠ .CARDINALITY) := by
  refine ⟨fun hit hhit => ?_, fun hnone r hr => ?_⟩
  · have hne : incumbents ≠ [] := List.ne_nil_of_mem (List.mem_of_find?_eq_some hhit)
    simp only [detect, hone, hhit, if_neg hne]
  · rcases eq_or_ne incumbents [] with rfl | hne
    · obtain rfl := Except.ok.inj hr
      decide
    · simp only [detect, hone, hnone, if_neg hne] at hr
      exact adjudicate_kind hr

/-- CORRECT: past the deterministic checks, one judgement for each incumbent makes a report of the severest
    pair, the nearest among equals, with that pair's own numbers. A doubt about any incumbent escalates, a
    report that does not escalate rests on no doubt at all, and the order of the pairs changes neither kind
    nor hint. Under a `ONE` predicate a cardinality conflict is reported exactly where an incumbent differs,
    and names the nearest that does. -/
theorem severest_reported (candidate : MemoryCandidate) (incumbents : List ScoredAssertion)
    (spec : PredicateSpec) (judgements : List Judgement) (hne : incumbents ≠ []) :
    (AnsweredEarly candidate incumbents spec = false → judgements.length = incumbents.length →
      ∃ r i hit judgement, detect candidate incumbents spec judgements = .ok r ∧
        incumbents[i]? = some hit ∧ judgements[i]? = some judgement ∧
        r.kind = (row_of candidate hit judgement).kind ∧
        r.resolution_hint = (row_of candidate hit judgement).resolution_hint ∧
        r.incumbent_assertion_id = some hit.assertion.assertion_id ∧ r.cosine = hit.cosine ∧
        r.entailment = judgement.entail_fwd ∧ r.contradiction = judgement.contradiction ∧
        (∀ (k : ℕ) (hit' : ScoredAssertion) (judgement' : Judgement), incumbents[k]? = some hit' →
          judgements[k]? = some judgement' →
            severity (row_of candidate hit judgement) ≤ severity (row_of candidate hit' judgement') ∧
            (k < i → severity (row_of candidate hit judgement) < severity (row_of candidate hit' judgement'))) ∧
        ((∃ j ∈ judgements, AMBIGUOUS_FLOOR ≤ j.contradiction.1) → r.resolution_hint = .escalate) ∧
        (r.resolution_hint ≠ .escalate → ∀ j ∈ judgements, j.contradiction.1 < AMBIGUOUS_FLOOR) ∧
        ∀ incumbents' judgements', judgements'.length = incumbents'.length →
          (incumbents'.zip judgements').Perm (incumbents.zip judgements) →
            ∃ r', detect candidate incumbents' spec judgements' = .ok r' ∧ r'.kind = r.kind ∧
              r'.resolution_hint = r.resolution_hint) ∧
    (AnsweredEarly candidate incumbents spec = false → judgements.length ≠ incumbents.length →
      ∃ message, detect candidate incumbents spec judgements = .error (.ValueError message)) ∧
    (spec.cardinality = .ONE →
      ((∃ r, detect candidate incumbents spec judgements = .ok r ∧ r.kind = .CARDINALITY) ↔
        ∃ hit ∈ incumbents, hit.assertion.object.pyEq candidate.object = false) ∧
      ∀ r, detect candidate incumbents spec judgements = .ok r → r.kind = .CARDINALITY →
        ∃ (i : ℕ) (hit : ScoredAssertion), incumbents[i]? = some hit ∧
          hit.assertion.object.pyEq candidate.object = false ∧
          (∀ k < i, ∀ hit', incumbents[k]? = some hit' → hit'.assertion.object.pyEq candidate.object = true) ∧
          r.incumbent_assertion_id = some hit.assertion.assertion_id ∧ r.cosine = hit.cosine) := by
  refine ⟨fun hearly hlength => ?_, fun hearly hlength => ?_, fun hone => ⟨?_, ?_⟩⟩
  · obtain ⟨z, hz, hreport⟩ := adjudicate_ok candidate hne hlength
    obtain ⟨i, hi, hmin⟩ := most_severe_spec hz
    obtain ⟨hit, judgement, hhit, hjudgement, rfl⟩ := ranked_get.mp hi
    have hdetect := (detect_undecided hne hearly judgements).trans hreport
    have hleast : ∀ (k : ℕ) (hit' : ScoredAssertion) (judgement' : Judgement), incumbents[k]? = some hit' →
        judgements[k]? = some judgement' →
          severity (row_of candidate hit judgement) ≤ severity (row_of candidate hit' judgement') ∧
          (k < i → severity (row_of candidate hit judgement) < severity (row_of candidate hit' judgement')) :=
      fun k hit' judgement' hk hj => hmin k _ (ranked_get.mpr ⟨hit', judgement', hk, hj, rfl⟩)
    have hdoubt : (∃ j ∈ judgements, AMBIGUOUS_FLOOR ≤ j.contradiction.1) →
        (row_of candidate hit judgement).resolution_hint = .escalate := by
      rintro ⟨j, hj, hcontra⟩
      obtain ⟨k, hk⟩ := List.mem_iff_getElem?.mp hj
      have hbound : k < incumbents.length := hlength ▸ (List.getElem?_eq_some_iff.mp hk).1
      exact escalate_severest _ (classify_mem _ _ _) _ (classify_mem _ _ _)
        ((classify_escalates _ _ _).mpr hcontra) (hleast k _ j (List.getElem?_eq_getElem hbound) hk).1
    refine ⟨_, i, hit, judgement, hdetect, hhit, hjudgement, rfl, rfl, rfl, rfl, rfl, rfl, hleast, hdoubt,
      fun hhint j hj => ?_, fun incumbents' judgements' hlength' hperm => ?_⟩
    · exact not_le.mp fun hcontra => hhint (hdoubt ⟨j, hj, hcontra⟩)
    · exact detect_perm hne hearly hlength hlength' hperm hdetect
  · rw [detect_undecided hne hearly, adjudicate, if_pos (Ne.symm hlength)]
    exact ⟨_, rfl⟩
  · obtain ⟨hsome, hnone⟩ := @detect_one candidate incumbents judgements spec hone
    have hdiffers : (live_incumbent incumbents candidate.object).isSome ↔
        ∃ hit ∈ incumbents, hit.assertion.object.pyEq candidate.object = false := by
      rw [live_incumbent, List.find?_isSome]
      simp
    rw [← hdiffers]
    cases hlive : live_incumbent incumbents candidate.object with
    | none =>
        refine iff_of_false ?_ (by simp)
        rintro ⟨r, hr, hkind⟩
        exact hnone hlive r hr hkind
    | some hit => exact iff_of_true ⟨_, hsome hit hlive, rfl⟩ rfl
  · intro r hr hkind
    obtain ⟨hsome, hnone⟩ := @detect_one candidate incumbents judgements spec hone
    cases hlive : live_incumbent incumbents candidate.object with
    | none => exact absurd hkind (hnone hlive r hr)
    | some hit =>
        obtain rfl := Except.ok.inj ((hsome hit hlive).symm.trans hr)
        obtain ⟨hdiffers, i, hi, hget, hbefore⟩ := List.find?_eq_some_iff_getElem.mp hlive
        refine ⟨i, hit, by rw [List.getElem?_eq_getElem hi, hget], by simpa using hdiffers,
          fun k hk hit' hhit' => ?_, rfl, rfl⟩
        obtain ⟨hlt, rfl⟩ := List.getElem?_eq_some_iff.mp hhit'
        simpa using hbefore k hk

namespace Clinical

theorem unit_cosine (u : UnitFloat) : -1 ≤ u.1 ∧ u.1 ≤ 1 := ⟨by linarith [u.2.1], u.2.2⟩

theorem still_valid : ∀ t ∈ (none : Option Time), (0 : Time) ≤ t := by simp

/-- An allergy on record. -/
def recorded (id : AssertionId) (value : String) : StoredAssertion where
  assertion_id := id
  tenant_id := "clinic"
  «namespace» := "patient:1"
  subject_id := "1"
  predicate := "allergy"
  object := .str value
  confidence := percent 80
  risk := percent 40
  valid_from := 0
  recorded_at := 0
  provenance := [(allergy value).provenance]
  trace_id := "trace"
  sourced := List.cons_ne_nil _ _
  corroborated := Nat.one_pos
  interval_coherent := still_valid

/-- The thresholds are what their literals are read as. -/
example : [DUPLICATE_COSINE, REFINEMENT_COSINE, ENTAILED, CONTRADICTION_FLOOR, AMBIGUOUS_FLOOR] =
    [float (95 / 100), float (80 / 100), float (85 / 100), float (65 / 100), float (30 / 100)] := by
  decide +kernel

def many_allergies : PredicateSpec := { subject := "Patient", cardinality := .MANY, impact := .CRITICAL }

/-- The nearest incumbent restates the candidate, and the next one contradicts it. -/
def two_incumbents : List ScoredAssertion :=
  [⟨recorded "first" "penicillin", _, unit_cosine (percent 99)⟩,
    ⟨recorded "second" "none", _, unit_cosine (percent 70)⟩]

def two_judgements : List Judgement :=
  [⟨percent 99, percent 99, percent 1⟩, ⟨percent 5, percent 5, percent 90⟩]

end Clinical

open Clinical in
/-- The contradiction is what is reported. -/
theorem contradiction_reported : ∃ r,
    detect (allergy "penicillin") two_incumbents many_allergies two_judgements = .ok r ∧
      r.resolution_hint = .escalate := by
  obtain ⟨hreported, -, -⟩ := severest_reported (allergy "penicillin") two_incumbents many_allergies
    two_judgements (List.cons_ne_nil _ _)
  obtain ⟨r, i, hit, judgement, hr, -, -, -, -, -, -, -, -, -, hdoubt, -⟩ := hreported rfl rfl
  exact ⟨r, hr, hdoubt ⟨_, List.mem_cons_of_mem _ List.mem_cons_self, by decide +kernel⟩⟩

end GuardMem
