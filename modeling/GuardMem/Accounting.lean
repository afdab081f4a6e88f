import GuardMem.Citation
import GuardMem.Governance

/-! What becomes of everything a caller submitted.

    One entry for each canonical fact says how it ended, and each list that `govern` reports is what the
    entries say of it, in their order. CORRECT: the entries are there for every proposal that is governed,
    whichever stage fails for whichever candidate (`accounted_for`). -/

namespace GuardMem

/-- How one canonical fact ended. -/
inductive Ending where
  | unsourced
  | quarantined (c : MemoryCandidate)
  | rejected (c : MemoryCandidate)
  | unscored (c : MemoryCandidate) (exc : Exc)
  | unapplied (c : MemoryCandidate) (g : GovernedCandidate) (exc : Exc)
  | applied (c : MemoryCandidate) (g : GovernedCandidate) (outcome : Applied)

abbrev Entry := ExtractedFact × Ending

/-! ### What an entry says of each list -/

namespace Ending

def candidate : Ending → Option MemoryCandidate
  | .unsourced => none
  | .quarantined c | .rejected c | .unscored c _ | .unapplied c _ _ | .applied c _ _ => some c

def to_quarantine : Ending → Option CandidateId
  | .quarantined c => some c.candidate_id
  | _ => none

def to_rejected : Ending → Option CandidateId
  | .rejected c => some c.candidate_id
  | _ => none

def to_governed : Ending → Option GovernedCandidate
  | .unapplied _ g _ | .applied _ g _ => some g
  | _ => none

def to_applied : Ending → Option Applied
  | .applied _ _ outcome => some outcome
  | _ => none

def score_failure : Ending → Option CandidateFailure
  | .unscored c exc => some ⟨c.candidate_id, exc⟩
  | _ => none

def apply_failure : Ending → Option CandidateFailure
  | .unapplied c _ exc => some ⟨c.candidate_id, exc⟩
  | _ => none

end Ending

section

variable (judged : MemoryCandidate → GatedCandidate)
  (scored : GatedCandidate → Option (Except Exc GovernedCandidate)) (is_sourced : ExtractedFact → Bool)

/-- How a fact may end: the candidate says what the fact says, and whatever was decided was decided on the
    gate's verdict of that candidate. -/
inductive Ends (fact : ExtractedFact) : Ending → Prop
  | unsourced (hsourced : is_sourced fact = false) : Ends fact .unsourced
  | quarantined {c} (hsaid : c.said = fact.said) (houtcome : (judged c).outcome = .QUARANTINED) :
      Ends fact (.quarantined c)
  | rejected {c} (hsaid : c.said = fact.said) (houtcome : (judged c).outcome = .REJECTED) :
      Ends fact (.rejected c)
  | unscored {c exc} (hsaid : c.said = fact.said) (hscore : scored (judged c) = some (.error exc)) :
      Ends fact (.unscored c exc)
  | unapplied {c g exc} (hsaid : c.said = fact.said) (hscore : scored (judged c) = some (.ok g))
      (hpair : g.candidate = (judged c).candidate) : Ends fact (.unapplied c g exc)
  | applied {c g outcome} (hsaid : c.said = fact.said) (hscore : scored (judged c) = some (.ok g))
      (hpair : g.candidate = (judged c).candidate) (hid : outcome.candidate_id = c.candidate_id) :
      Ends fact (.applied c g outcome)

/-- The books of one proposal: an entry for each canonical fact, and every list is what they say. -/
structure Books (facts : List ExtractedFact) (entries : List Entry) (report : Governed) : Prop where
  facts : entries.map Prod.fst = facts
  ends : ∀ entry ∈ entries, Ends judged scored is_sourced entry.1 entry.2
  ids : (entries.filterMap fun e => e.2.candidate.map MemoryCandidate.candidate_id).Nodup
  unsourced : report.result.dropped_unsourced = entries.countP fun e => e.2.candidate.isNone
  quarantined : report.result.quarantined = entries.filterMap fun e => e.2.to_quarantine
  rejected : report.result.rejected = entries.filterMap fun e => e.2.to_rejected
  governed : report.result.governed = entries.filterMap fun e => e.2.to_governed
  applied : report.applied = entries.filterMap fun e => e.2.to_applied
  failures : report.failures = (entries.filterMap fun e => e.2.score_failure) ++
    entries.filterMap fun e => e.2.apply_failure

end

/-! ### Layer 1 -/

/-- A canonical fact and its candidate, if it has one. -/
abbrev Linked := ExtractedFact × Option MemoryCandidate

section

variable {fz : Rapidfuzz} {py : Python} {content : String} {context : ExtractionContext}

/-- Each fact is linked or is unsourced, in order. -/
structure Links (fz : Rapidfuzz) (py : Python) (content : String) (facts : List ExtractedFact)
    (linked : List Linked) (out : List MemoryCandidate × ℕ) : Prop where
  facts : linked.map Prod.fst = facts
  candidates : out.1 = linked.filterMap Prod.snd
  unsourced : out.2 = linked.countP fun l => l.2.isNone
  said : ∀ l ∈ linked, ∀ c ∈ l.2, c.said = l.1.said
  sourced : ∀ l ∈ linked, l.2 = none → GuardMem.sourced fz py content l.1 = false

theorem link_fact_links {done : List ExtractedFact} {acc out : List MemoryCandidate × ℕ}
    {fact : ExtractedFact} (h : ∃ linked, Links fz py content done linked acc)
    (hlink : link_fact fz py content context acc fact = .ok out) :
    ∃ linked, Links fz py content (done ++ [fact]) linked out := by
  obtain ⟨linked, h⟩ := h
  unfold link_fact at hlink
  cases hfound : link_span fz py fact.verbatim content with
  | none =>
      rw [hfound] at hlink
      obtain rfl := Except.ok.inj hlink
      refine ⟨linked ++ [(fact, none)], by simp [h.facts], by simp [h.candidates], by simp [h.unsourced],
        fun l hl => ?_, fun l hl => ?_⟩
      · rcases List.mem_append.mp hl with hl | hl
        · exact h.said l hl
        · simp [List.mem_singleton.mp hl]
      · rcases List.mem_append.mp hl with hl | hl
        · exact h.sourced l hl
        · simp [List.mem_singleton.mp hl, sourced, hfound]
  | some found =>
      simp only [hfound, bind_ok, Except.ok.injEq] at hlink
      obtain ⟨p, -, rfl⟩ := hlink
      refine ⟨linked ++ [(fact, some (to_candidate context fact (acc.1.length + 1) p))], by simp [h.facts],
        by simp [h.candidates], by simp [h.unsourced], fun l hl => ?_, fun l hl => ?_⟩
      · rcases List.mem_append.mp hl with hl | hl
        · exact h.said l hl
        · intro c hc
          obtain rfl := List.mem_singleton.mp hl
          obtain rfl := Option.some.inj hc
          rfl
      · rcases List.mem_append.mp hl with hl | hl
        · exact h.sourced l hl
        · simp [List.mem_singleton.mp hl]

theorem to_candidates_links {facts : List ExtractedFact} {out : List MemoryCandidate × ℕ}
    (h : to_candidates fz py content context facts = .ok out) :
    ∃ linked, Links fz py content facts linked out :=
  foldlM_ok (fun done out => ∃ linked, Links fz py content done linked out)
    (fun _ _ _ _ => link_fact_links) ⟨[], rfl, rfl, rfl, by simp, by simp⟩ h

end

/-! ### What is applied -/

section

variable {deps : Deps} {tenant : TenantId} {trace : TraceId} {clock : CandidateId → ApplyClock}

/-- An apply reports on its own candidate. -/
theorem apply_candidate {c : ApplyClock} {g : GovernedCandidate} {db : Db} {outcome : Applied × Db}
    (h : apply deps tenant trace c g db = .ok outcome) :
    outcome.1.candidate_id = g.candidate.candidate_id := by
  obtain ⟨reported, db'⟩ := outcome
  cases hrefusal : refusal g with
  | some reason =>
      rw [apply_refused hrefusal] at h
      obtain ⟨rfl, -⟩ := Prod.mk.inj (Except.ok.inj h)
      rfl
  | none =>
      obtain ⟨-, -, houtcome, -⟩ := (apply_body_ok hrefusal).mp h
      rw [houtcome]
      rfl

/-- A governed candidate and how its apply ended. -/
abbrev Applying := GovernedCandidate × Except Exc Applied

def Applying.outcome (a : Applying) : Option Applied := a.2.toOption

def Applying.failure (a : Applying) : Option CandidateFailure :=
  match a.2 with
  | .ok _ => none
  | .error exc => some ⟨a.1.candidate.candidate_id, exc⟩

@[simp] theorem Applying.outcome_ok {g : GovernedCandidate} {outcome : Applied} :
    Applying.outcome (g, .ok outcome) = some outcome := rfl
@[simp] theorem Applying.outcome_error {g : GovernedCandidate} {exc : Exc} :
    Applying.outcome (g, .error exc) = none := rfl
@[simp] theorem Applying.failure_ok {g : GovernedCandidate} {outcome : Applied} :
    Applying.failure (g, .ok outcome) = none := rfl
@[simp] theorem Applying.failure_error {g : GovernedCandidate} {exc : Exc} :
    Applying.failure (g, .error exc) = some ⟨g.candidate.candidate_id, exc⟩ := rfl

/-- Every governed candidate is applied or has failed, once and in order. -/
theorem apply_all_applyings : ∀ (gs : List GovernedCandidate) (db : Db), ∃ applyings : List Applying,
    applyings.map Prod.fst = gs ∧
    (apply_all deps tenant trace (gs.map fun g => (g, clock g.candidate.candidate_id)) db).1 =
      applyings.filterMap Applying.outcome ∧
    (apply_all deps tenant trace (gs.map fun g => (g, clock g.candidate.candidate_id)) db).2.1 =
      applyings.filterMap Applying.failure ∧
    ∀ a ∈ applyings, ∀ outcome, a.2 = .ok outcome →
      outcome.candidate_id = a.1.candidate.candidate_id := by
  intro gs
  induction gs with
  | nil => exact fun db => ⟨[], rfl, rfl, rfl, by simp⟩
  | cons g gs ih =>
      intro db
      cases happly : apply deps tenant trace (clock g.candidate.candidate_id) g db with
      | error exc =>
          obtain ⟨applyings, hgs, happlied, hfailed, hown⟩ := ih db
          refine ⟨(g, .error exc) :: applyings, by simp [hgs], ?_, ?_, ?_⟩
          · simpa [apply_all, happly, List.filterMap_cons] using happlied
          · simpa [apply_all, happly, List.filterMap_cons] using hfailed
          · intro a ha outcome houtcome
            rcases List.mem_cons.mp ha with rfl | ha
            · cases houtcome
            · exact hown a ha outcome houtcome
      | ok out =>
          obtain ⟨applyings, hgs, happlied, hfailed, hown⟩ := ih out.2
          refine ⟨(g, .ok out.1) :: applyings, by simp [hgs], ?_, ?_, ?_⟩
          · simpa [apply_all, happly, List.filterMap_cons] using happlied
          · simpa [apply_all, happly, List.filterMap_cons] using hfailed
          · intro a ha outcome houtcome
            rcases List.mem_cons.mp ha with rfl | ha
            · obtain rfl := Except.ok.inj houtcome
              exact apply_candidate happly
            · exact hown a ha outcome houtcome

/-- What was made of some of the items can be laid beside all of them. -/
theorem laid_beside {α β γ : Type} {f : α → Option β} {p : γ → β} : ∀ (xs : List α) (outs : List γ),
    outs.map p = xs.filterMap f → ∃ zs : List (α × Option γ), zs.map Prod.fst = xs ∧
      zs.filterMap Prod.snd = outs ∧ ∀ z ∈ zs, z.2.map p = f z.1 := by
  intro xs
  induction xs with
  | nil =>
      intro outs h
      obtain rfl := List.map_eq_nil_iff.mp h
      exact ⟨[], rfl, rfl, by simp⟩
  | cons x xs ih =>
      intro outs h
      cases hx : f x with
      | none =>
          rw [List.filterMap_cons_none hx] at h
          obtain ⟨zs, hxs, houts, hz⟩ := ih outs h
          exact ⟨(x, none) :: zs, by simp [hxs], by simp [houts], by simpa [hx] using hz⟩
      | some y =>
          rw [List.filterMap_cons_some hx] at h
          obtain ⟨out, rest, rfl, hout, hrest⟩ := List.map_eq_cons_iff.mp h
          obtain ⟨zs, hxs, houts, hz⟩ := ih rest hrest
          exact ⟨(x, some out) :: zs, by simp [hxs], by simp [houts], by simpa [hx, hout] using hz⟩

end

/-! ### The books -/

section

variable (judged : MemoryCandidate → GatedCandidate)
  (scored : GatedCandidate → Option (Except Exc GovernedCandidate))

/-- Whether the gate lets a verdict through to be scored. -/
def GatedCandidate.admitted (v : GatedCandidate) : Bool := v.outcome ≠ .QUARANTINED ∧ v.outcome ≠ .REJECTED

/-- The decision on a linked fact, if it gets one. -/
def decided (l : Linked) : Option GovernedCandidate :=
  l.2.bind fun c => if (judged c).admitted then governed_of (scored (judged c)) else none

/-- How an admitted candidate ends. -/
def scored_ending (c : MemoryCandidate) : Option (Except Exc GovernedCandidate) → Option Applying → Ending
  | some (.error exc), _ => .unscored c exc
  | _, some (g, .ok outcome) => .applied c g outcome
  | _, some (g, .error exc) => .unapplied c g exc
  | _, none => .unsourced

/-- How a linked fact ends, with the apply of its decision where there is one. -/
def ending (l : Linked) (applying : Option Applying) : Ending :=
  match l.2 with
  | none => .unsourced
  | some c =>
      match (judged c).outcome with
      | .QUARANTINED => .quarantined c
      | .REJECTED => .rejected c
      | .PASS | .COERCED => scored_ending c (scored (judged c)) applying

/-- A linked fact and the apply of its decision. -/
inductive Course (l : Linked) (applying : Option Applying) : Ending → Prop
  | unsourced (hl : l.2 = none) (hnone : applying = none) : Course l applying .unsourced
  | quarantined {c} (hl : l.2 = some c) (hnone : applying = none)
      (houtcome : (judged c).outcome = .QUARANTINED) : Course l applying (.quarantined c)
  | rejected {c} (hl : l.2 = some c) (hnone : applying = none)
      (houtcome : (judged c).outcome = .REJECTED) : Course l applying (.rejected c)
  | unscored {c exc} (hl : l.2 = some c) (hnone : applying = none) (hadmitted : (judged c).admitted = true)
      (hscore : scored (judged c) = some (.error exc)) : Course l applying (.unscored c exc)
  | unapplied {c g exc} (hl : l.2 = some c) (hsome : applying = some (g, .error exc))
      (hadmitted : (judged c).admitted = true) (hscore : scored (judged c) = some (.ok g)) :
      Course l applying (.unapplied c g exc)
  | applied {c g outcome} (hl : l.2 = some c) (hsome : applying = some (g, .ok outcome))
      (hadmitted : (judged c).admitted = true) (hscore : scored (judged c) = some (.ok g)) :
      Course l applying (.applied c g outcome)

variable {judged scored} {l : Linked} {applying : Option Applying}

theorem ending_course (hattempt : applying.map Prod.fst = decided judged scored l)
    (hscored : ∀ c ∈ l.2, (judged c).admitted = true → scored (judged c) ≠ none) :
    Course judged scored l applying (ending judged scored l applying) := by
  obtain ⟨fact, _ | c⟩ := l
  · obtain rfl : applying = none := Option.map_eq_none_iff.mp hattempt
    exact .unsourced rfl rfl
  · by_cases hadmitted : (judged c).admitted = true
    · have hdecided : applying.map Prod.fst = governed_of (scored (judged c)) := by
        rw [hattempt]
        simp [decided, hadmitted]
      have houtcome : (judged c).outcome = .PASS ∨ (judged c).outcome = .COERCED := by
        simp only [GatedCandidate.admitted, decide_eq_true_eq] at hadmitted
        cases h : (judged c).outcome <;> simp_all
      have hending : ending judged scored (fact, some c) applying =
          scored_ending c (scored (judged c)) applying := by
        rcases houtcome with houtcome | houtcome <;> simp only [ending, houtcome]
      rw [hending]
      rcases hscore : scored (judged c) with _ | exc | g
      · exact absurd hscore (hscored c rfl hadmitted)
      · rw [hscore] at hdecided
        obtain rfl : applying = none := Option.map_eq_none_iff.mp hdecided
        exact .unscored rfl rfl hadmitted hscore
      · rw [hscore] at hdecided
        obtain ⟨⟨g', exc | outcome⟩, rfl, hg⟩ := Option.map_eq_some_iff.mp hdecided
        · obtain rfl : g' = g := hg
          exact .unapplied rfl rfl hadmitted hscore
        · obtain rfl : g' = g := hg
          exact .applied rfl rfl hadmitted hscore
    · obtain rfl : applying = none := by
        refine Option.map_eq_none_iff.mp (hattempt.trans ?_)
        simp [decided, hadmitted]
      have houtcome : (judged c).outcome = .QUARANTINED ∨ (judged c).outcome = .REJECTED := by
        simp only [GatedCandidate.admitted, decide_eq_true_eq] at hadmitted
        tauto
      rcases houtcome with houtcome | houtcome
      · have hending : ending judged scored (fact, some c) none = .quarantined c := by
          simp only [ending, houtcome]
        exact hending ▸ .quarantined rfl rfl houtcome
      · have hending : ending judged scored (fact, some c) none = .rejected c := by
          simp only [ending, houtcome]
        exact hending ▸ .rejected rfl rfl houtcome

variable {is_sourced : ExtractedFact → Bool} {e : Ending}

theorem Course.ends (h : Course judged scored l applying e)
    (hid : ∀ c, (judged c).id = c.candidate_id)
    (hpair : ∀ v g, scored v = some (.ok g) → g.candidate = v.candidate)
    (hsaid : ∀ c ∈ l.2, c.said = l.1.said) (hsourced : l.2 = none → is_sourced l.1 = false)
    (hown : ∀ a ∈ applying, ∀ outcome, a.2 = .ok outcome → outcome.candidate_id = a.1.candidate.candidate_id) :
    Ends judged scored is_sourced l.1 e := by
  cases h with
  | unsourced hl hnone => exact .unsourced (hsourced hl)
  | quarantined hl hnone houtcome => exact .quarantined (hsaid _ hl) houtcome
  | rejected hl hnone houtcome => exact .rejected (hsaid _ hl) houtcome
  | unscored hl hnone hadmitted hscore => exact .unscored (hsaid _ hl) hscore
  | unapplied hl hsome hadmitted hscore => exact .unapplied (hsaid _ hl) hscore (hpair _ _ hscore)
  | @applied c g outcome hl hsome hadmitted hscore =>
      have hg := hpair _ _ hscore
      refine .applied (hsaid _ hl) hscore hg ((hown _ hsome outcome rfl).trans ?_)
      rw [hg]
      exact hid c

/-- What an entry says of each list is what the stages said of its fact. -/
theorem Course.reads (h : Course judged scored l applying e) (hid : ∀ c, (judged c).id = c.candidate_id)
    (hpair : ∀ v g, scored v = some (.ok g) → g.candidate = v.candidate) :
    e.candidate = l.2 ∧
    e.to_quarantine = (l.2.bind fun c =>
      if (judged c).outcome = .QUARANTINED then some (judged c).id else none) ∧
    e.to_rejected = (l.2.bind fun c =>
      if (judged c).outcome = .REJECTED then some (judged c).id else none) ∧
    e.to_governed = decided judged scored l ∧
    e.score_failure = (l.2.bind fun c =>
      if (judged c).admitted then failure_of (judged c).id (scored (judged c)) else none) ∧
    e.to_applied = applying.bind Applying.outcome ∧ e.apply_failure = applying.bind Applying.failure := by
  have hgate : ∀ {v : GatedCandidate}, v.admitted = true →
      v.outcome ≠ .QUARANTINED ∧ v.outcome ≠ .REJECTED := fun h => of_decide_eq_true h
  cases h with
  | unsourced hl hnone => simp [hl, hnone, decided, Ending.candidate, Ending.to_quarantine,
      Ending.to_rejected, Ending.to_governed, Ending.score_failure, Ending.to_applied, Ending.apply_failure]
  | quarantined hl hnone houtcome => simp [hl, hnone, decided, GatedCandidate.admitted, houtcome, hid,
      Ending.candidate, Ending.to_quarantine, Ending.to_rejected, Ending.to_governed,
      Ending.score_failure, Ending.to_applied, Ending.apply_failure]
  | rejected hl hnone houtcome => simp [hl, hnone, decided, GatedCandidate.admitted, houtcome, hid,
      Ending.candidate, Ending.to_quarantine, Ending.to_rejected, Ending.to_governed,
      Ending.score_failure, Ending.to_applied, Ending.apply_failure]
  | unscored hl hnone hadmitted hscore => simp [hl, hnone, decided, hadmitted, hgate hadmitted, hscore,
      hid, Ending.candidate, Ending.to_quarantine, Ending.to_rejected, Ending.to_governed,
      Ending.score_failure, Ending.to_applied, Ending.apply_failure]
  | @unapplied c g exc hl hsome hadmitted hscore =>
      have hown : g.candidate.candidate_id = c.candidate_id := by
        rw [hpair _ _ hscore]
        exact hid c
      simp [hl, hsome, decided, hadmitted, hgate hadmitted, hscore, hown, Ending.candidate,
        Ending.to_quarantine, Ending.to_rejected, Ending.to_governed, Ending.score_failure,
        Ending.to_applied, Ending.apply_failure]
  | applied hl hsome hadmitted hscore => simp [hl, hsome, decided, hadmitted, hgate hadmitted, hscore,
      Ending.candidate, Ending.to_quarantine, Ending.to_rejected, Ending.to_governed,
      Ending.score_failure, Ending.to_applied, Ending.apply_failure]

/-- What is said of the verdicts that pass a test, fact by fact. -/
theorem filterMap_judged {β : Type} (test : GatedCandidate → Bool) (say : GatedCandidate → Option β)
    (linked : List Linked) :
    (((linked.filterMap Prod.snd).map judged).filter test).filterMap say =
      linked.filterMap fun l => l.2.bind fun c => if test (judged c) then say (judged c) else none := by
  rw [List.filterMap_filter, List.filterMap_map, List.filterMap_filterMap]
  rfl

end

/-! ### The whole of it -/

section

variable {py : Python} {ingest : Ingest} {submission : Submission} {deps : Deps} {pack : Pack}
  {weights : ConfidenceWeights py} {betas : RiskBetas}

/-- The books of a run over linked facts. -/
theorem run_books {is_sourced : ExtractedFact → Bool} {facts : List ExtractedFact} {linked : List Linked}
    {extracted : Extraction} {proposal : Proposal} {scoring : CandidateId → Call Answers}
    {result : PipelineResult} {failures : List CandidateFailure} {applyings : List Applying}
    (hfacts : linked.map Prod.fst = facts) (hcandidates : extracted.candidates = linked.filterMap Prod.snd)
    (hunsourced : extracted.dropped_unsourced = linked.countP fun l => l.2.isNone)
    (hsaid : ∀ l ∈ linked, ∀ c ∈ l.2, c.said = l.1.said)
    (hsourced : ∀ l ∈ linked, l.2 = none → is_sourced l.1 = false)
    (hrun : Orchestrator.run py deps pack weights betas proposal (.answers extracted) scoring =
      .answers (result, failures))
    (hgoverned : applyings.map Prod.fst = result.governed)
    (hown : ∀ a ∈ applyings, ∀ outcome, a.2 = .ok outcome →
      outcome.candidate_id = a.1.candidate.candidate_id) :
    ∃ entries, (entries.filterMap fun e => e.2.candidate) = extracted.candidates ∧
      Books (fun c => judge py deps.casefold c pack) (score py deps pack weights betas proposal scoring)
        is_sourced facts entries ⟨result, applyings.filterMap Applying.outcome,
          failures ++ applyings.filterMap Applying.failure⟩ := by
  obtain ⟨hscored, rfl, rfl⟩ := run_reports hrun
  set judged : MemoryCandidate → GatedCandidate := fun c => judge py deps.casefold c pack with hjudged
  set scored := score py deps pack weights betas proposal scoring with hscore
  have hid : ∀ c, (judged c).id = c.candidate_id := fun c => judge_id c
  have hpair : ∀ v g, scored v = some (.ok g) → g.candidate = v.candidate := fun v g => score_pairs
  have hadmitted : ∀ l ∈ linked, ∀ c ∈ l.2, (judged c).admitted = true → scored (judged c) ≠ none := by
    intro l hl c hc hpass
    refine hscored _ (List.mem_filter.mpr ⟨List.mem_map.mpr ⟨c, ?_, rfl⟩, hpass⟩)
    rw [hcandidates]
    exact List.mem_filterMap.mpr ⟨l, hl, hc⟩
  have hdecided : applyings.map Prod.fst = linked.filterMap (decided judged scored) := by
    rw [hgoverned]
    simp only [gate, hcandidates]
    exact filterMap_judged GatedCandidate.admitted (fun v => governed_of (scored v)) linked
  obtain ⟨zs, rfl, rfl, hzs⟩ := laid_beside linked applyings hdecided
  have hmem : ∀ z ∈ zs, z.1 ∈ zs.map Prod.fst := fun z hz => List.mem_map_of_mem hz
  have hcourse : ∀ z ∈ zs, Course judged scored z.1 z.2 (ending judged scored z.1 z.2) :=
    fun z hz => ending_course (hzs z hz) (hadmitted z.1 (hmem z hz))
  have hreads := fun z hz => (hcourse z hz).reads hid hpair
  have hcand : (zs.map fun z => ((z.1.1, ending judged scored z.1 z.2) : Entry)).filterMap
      (fun e => e.2.candidate) = extracted.candidates := by
    rw [hcandidates, List.filterMap_map, List.filterMap_map]
    exact List.filterMap_congr fun z hz => (hreads z hz).1
  refine ⟨zs.map fun z => (z.1.1, ending judged scored z.1 z.2), hcand, ?_⟩
  exact
    { facts := by rw [← hfacts, List.map_map, List.map_map]; rfl
      ends := by
        intro entry hentry
        obtain ⟨z, hz, rfl⟩ := List.mem_map.mp hentry
        refine (hcourse z hz).ends hid hpair (hsaid z.1 (hmem z hz)) (hsourced z.1 (hmem z hz)) ?_
        exact fun a ha => hown a (List.mem_filterMap.mpr ⟨z, hz, ha⟩)
      ids := by
        have hmap := congrArg (List.map MemoryCandidate.candidate_id) hcand
        rw [List.map_filterMap] at hmap
        rw [hmap]
        exact extracted.numbered
      unsourced := by
        rw [hunsourced, List.countP_map, List.countP_map]
        exact List.countP_congr fun z hz => by simp [(hreads z hz).1]
      quarantined := by
        dsimp only [gate]
        rw [hcandidates, ← List.filterMap_eq_map, filterMap_judged, List.filterMap_map, List.filterMap_map]
        refine List.filterMap_congr fun z hz => Eq.trans ?_ (hreads z hz).2.1.symm
        simp [hjudged]
      rejected := by
        dsimp only [gate]
        rw [hcandidates, ← List.filterMap_eq_map, filterMap_judged, List.filterMap_map, List.filterMap_map]
        refine List.filterMap_congr fun z hz => Eq.trans ?_ (hreads z hz).2.2.1.symm
        simp [hjudged]
      governed := by
        rw [← hgoverned, hdecided, List.filterMap_map, List.filterMap_map]
        exact List.filterMap_congr fun z hz => ((hreads z hz).2.2.2.1).symm
      applied := by
        rw [List.filterMap_filterMap, List.filterMap_map]
        exact List.filterMap_congr fun z hz => ((hreads z hz).2.2.2.2.2.1).symm
      failures := by
        refine congrArg₂ (· ++ ·) ?_ ?_
        · simp only [gate, hcandidates]
          refine (filterMap_judged GatedCandidate.admitted (fun v => failure_of v.id (scored v)) _).trans ?_
          rw [List.filterMap_map, List.filterMap_map]
          exact List.filterMap_congr fun z hz => ((hreads z hz).2.2.2.2.1).symm
        · rw [List.filterMap_filterMap, List.filterMap_map]
          exact List.filterMap_congr fun z hz => ((hreads z hz).2.2.2.2.2.2).symm }

end

/-- CORRECT: whatever is governed, each turn is kept or dropped once, and each fact of the canonical
    sample has one entry that says how it ended. -/
theorem accounted_for (py : Python) (ingest : Ingest) (submission : Submission) (deps : Deps) (pack : Pack)
    (weights : ConfidenceWeights py) (betas : RiskBetas)
    (scoring : List (List ExtractedFact) → CandidateId → Call Answers) (clock : CandidateId → ApplyClock)
    (db db' : Db) (report : Governed)
    (h : Submission.govern py ingest submission deps pack weights betas scoring clock db =
      .answers (report, db')) :
    ∃ denoised extracted canonical rest entries,
      layer1 py ingest submission = .ok (denoised, extracted) ∧ extracted.samples = canonical :: rest ∧
      Fates submission.turns denoised ∧ report.result.dropped_noise = denoised.dropped.length ∧
      (entries.filterMap fun e => e.2.candidate) = extracted.candidates ∧
      Books (fun c => judge py deps.casefold c pack)
        (score py deps pack weights betas submission.toProposal (scoring extracted.samples))
        (sourced ingest.fz py (render_content denoised.kept)) canonical entries report := by
  unfold Submission.govern at h
  cases hlayer : layer1 py ingest submission with
  | error exc => simp [run_submission_error hlayer, Call.map] at h
  | ok out =>
      obtain ⟨denoised, extracted⟩ := out
      rw [run_submission_ok hlayer] at h
      cases hrun : Orchestrator.run py deps pack weights betas submission.toProposal
          (.answers extracted.toExtraction) (scoring extracted.samples) with
      | raises exc => simp [hrun, Call.map] at h
      | cancelled => simp [hrun, Call.map] at h
      | answers out =>
          obtain ⟨result, failures⟩ := out
          simp only [hrun, Call.map, Call.answers.injEq, Prod.mk.injEq] at h
          obtain ⟨rfl, -⟩ := h
          simp only [layer1, bind_ok, Except.ok.injEq, Prod.mk.injEq] at hlayer
          obtain ⟨denoised', hdenoise, extracted', hextract, rfl, rfl⟩ := hlayer
          obtain ⟨context, -, hextract⟩ := bind_ok.mp hextract
          obtain ⟨canonical, rest, hsamples, -, hnoise, hlinked⟩ := extract_ok hextract
          obtain ⟨linked, hlinks⟩ := to_candidates_links hlinked
          obtain ⟨applyings, hgoverned, happlied, hfailed, hown⟩ := @apply_all_applyings deps
            submission.tenant_id result.trace_id clock result.governed db
          obtain ⟨entries, hcandidates, hbooks⟩ := run_books hlinks.facts hlinks.candidates
            hlinks.unsourced hlinks.said hlinks.sourced hrun hgoverned hown
          obtain ⟨-, hresult, -⟩ := run_reports hrun
          refine ⟨denoised', extracted', canonical, rest, entries, rfl, hsamples,
            filter_noise_fates hdenoise, ?_, hcandidates, ?_⟩
          · rw [hresult]
            exact hnoise
          · rw [happlied, hfailed]
            exact hbooks

namespace Clinical

/-- A word about the patient's sister, one of thanks, and the patient's language. -/
def visit : Submission := conversation
  [said 1 "My sister is well.", said 2 "Thanks!", said 3 "All of us at home speak Spanish"] 1

/-- The classifier takes the first turn for one about somebody else; the model states the language, and
    once more without quoting anything. -/
def visit_scribe : Ingest := scribe .reference [speaks "es" "speak Spanish", speaks "fr" " "]
  [⟨"turn-1", true, some .THIRD_PARTY⟩]

/-- The visit governed while the judge is away. -/
def governed_visit : Call (Governed × Db) :=
  Submission.govern python visit_scribe visit deps clinical_pack V1_WEIGHTS V1_BETAS
    (fun _ _ => .raises .ProviderUnavailable) (fun _ => ⟨0, 0, 0⟩) Db.empty

theorem denoise_visit : denoise visit_scribe visit =
    .ok ⟨[said 3 "All of us at home speak Spanish"], [⟨said 2 "Thanks!", .EPHEMERAL, .RULE⟩,
      ⟨said 1 "My sister is well.", .THIRD_PARTY, .CLASSIFIER⟩]⟩ := by decide +kernel

theorem layer1_visit : ∃ extracted, layer1 python visit_scribe visit =
    .ok (⟨[said 3 "All of us at home speak Spanish"], [⟨said 2 "Thanks!", .EPHEMERAL, .RULE⟩,
      ⟨said 1 "My sister is well.", .THIRD_PARTY, .CLASSIFIER⟩]⟩, extracted) := by
  have hisOk : (extract_kept python visit_scribe visit ⟨[said 3 "All of us at home speak Spanish"],
      [⟨said 2 "Thanks!", .EPHEMERAL, .RULE⟩,
        ⟨said 1 "My sister is well.", .THIRD_PARTY, .CLASSIFIER⟩]⟩).toOption.isSome = true := by
    decide +kernel
  rw [layer1, denoise_visit]
  obtain ⟨extracted, hextracted⟩ := Option.isSome_iff_exists.mp hisOk
  refine ⟨extracted, bind_ok.mpr ⟨_, rfl, bind_ok.mpr ⟨extracted, ?_, rfl⟩⟩⟩
  cases hextract : extract_kept python visit_scribe visit _ with
  | error exc => simp [hextract, Except.toOption] at hextracted
  | ok out =>
      simp only [hextract, Except.toOption, Option.some.injEq] at hextracted
      rw [hextracted]

theorem governed_visit_answers : ∃ out, governed_visit = .answers out := by
  obtain ⟨extracted, hlayer⟩ := layer1_visit
  obtain ⟨result, hrun, -⟩ := @run_scored python deps clinical_pack V1_WEIGHTS V1_BETAS visit.toProposal
    (fun _ => .raises .ProviderUnavailable) extracted.toExtraction (by simp)
  have hsubmission := (@run_submission_ok python visit_scribe visit deps clinical_pack V1_WEIGHTS V1_BETAS
    (fun _ _ => .raises .ProviderUnavailable) _ _ hlayer).trans hrun
  rw [governed_visit, Submission.govern, hsubmission]
  exact ⟨_, rfl⟩

end Clinical

open Clinical in
/-- Both facts of the visit are in its books. -/
theorem visit_accounted : ∃ report db', governed_visit = .answers (report, db') ∧
    ∃ canonical judged scored is_sourced entries, Books judged scored is_sourced canonical entries report := by
  obtain ⟨⟨report, db'⟩, hgovern⟩ := governed_visit_answers
  obtain ⟨_, _, canonical, _, entries, -, -, -, -, -, hbooks⟩ := accounted_for python visit_scribe visit deps
    clinical_pack V1_WEIGHTS V1_BETAS (fun _ _ => .raises .ProviderUnavailable) (fun _ => ⟨0, 0, 0⟩)
    Db.empty db'
    report hgovern
  exact ⟨report, db', hgovern, canonical, _, _, _, entries, hbooks⟩

open Clinical in
/-- The thanks are listed before the sister, who was spoken of first: the rules drop what they drop before
    the classifier is asked. -/
theorem sister_after_thanks : ¬ ∀ (py : Python) (ingest : Ingest) (submission : Submission) (deps : Deps)
    (pack : Pack) (weights : ConfidenceWeights py) (betas : RiskBetas)
    (scoring : List (List ExtractedFact) → CandidateId → Call Answers) (clock : CandidateId → ApplyClock)
    (db : Db) (out : Governed × Db),
    Submission.govern py ingest submission deps pack weights betas scoring clock db = .answers out →
    ∀ denoised extracted, layer1 py ingest submission = .ok (denoised, extracted) →
      (denoised.dropped.map DroppedTurn.turn).Sublist submission.turns := by
  intro h
  obtain ⟨out, hgovern⟩ := governed_visit_answers
  obtain ⟨extracted, hlayer⟩ := layer1_visit
  exact absurd (h python visit_scribe visit Clinical.deps clinical_pack V1_WEIGHTS V1_BETAS
    (fun _ _ => .raises .ProviderUnavailable) (fun _ => ⟨0, 0, 0⟩) Db.empty out hgovern _ extracted hlayer)
    (by decide)

end GuardMem
