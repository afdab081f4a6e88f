import GuardMem.Clinical
import GuardMem.Errors
import Mathlib.Data.List.ReduceOption

/-! Whether a transient fault can lose what a queued proposal said: `worker.tasks.evaluate` over
    `governance.govern`.

    The job asks arq for another run by re-raising a retryable error of the proposal as a whole, while
    an error of one candidate is attributed to it and the job ends. So a candidate is kept exactly where
    no retryable error reaches its own scoring or its own apply (`kept_iff`), and one unanswered model
    call loses it (`provider_down_loses`). -/

namespace GuardMem

open Lib.Table

/-! ### What the job does -/

/-- The decisions the chain holds of one proposal. -/
def decisions (tenant : TenantId) (trace : TraceId) (db : Db) : List AuditRow :=
  db.audit.filter fun e => e.tenant_id == tenant && e.trace_id == trace && e.kind == .DECISION

/-- What everyone else does to the tables between two transactions of the job. The proposal is in one
    job only, so none of them touches its decisions. -/
structure Others (tenant : TenantId) (trace : TraceId) where
  step : Db → Db
  apart : ∀ db, decisions tenant trace (step db) = decisions tenant trace db

/-- What can happen to a transaction: an error before its COMMIT, a COMMIT whose acknowledgement is
    lost, or the job's cancellation, before or after it commits. -/
inductive Fault where
  | raises (exc : Exc)
  | unacknowledged
  | cancelled (committed : Bool)

/-- One apply's turn: what others did before it, its clock, and what happens to its transaction. -/
structure ApplyTurn (tenant : TenantId) (trace : TraceId) where
  others : Others tenant trace
  clock : ApplyClock
  fault : Option Fault

variable (py : Python) (deps : Deps) (pack : Pack) (weights : ConfidenceWeights py) (betas : RiskBetas)
  (proposal : Proposal)

/-- Everything outside the job, while it runs once. -/
structure Script where
  layer1 : Call Extraction
  scoring : CandidateId → Call Answers
  applying : CandidateId → ApplyTurn proposal.tenant_id proposal.trace_id

/-- One apply of a run: the decision it carries out, its turn and the tables it finds. -/
structure ApplyRun where
  item : GovernedCandidate
  turn : ApplyTurn proposal.tenant_id proposal.trace_id
  found : Db

variable {proposal}

/-- How one apply ends, and the tables it leaves. -/
def ApplyRun.ending (a : ApplyRun proposal) : Call Applied × Db :=
  match a.turn.fault, apply deps proposal.tenant_id proposal.trace_id a.turn.clock a.item a.found with
  | some (.raises exc), _ => (.raises exc, a.found)
  | some (.cancelled true), .ok (_, db) => (.cancelled, db)
  | some (.cancelled _), _ => (.cancelled, a.found)
  | _, .error exc => (.raises exc, a.found)
  | some .unacknowledged, .ok (_, db) => (.raises .StoreUnavailable, db)
  | none, .ok (outcome, db) => (.answers outcome, db)

/-- The apply of one decision against the tables as they are. -/
def Script.begin (script : Script proposal) (g : GovernedCandidate) (db : Db) : ApplyRun proposal :=
  let turn := script.applying g.candidate.candidate_id
  ⟨g, turn, turn.others.step db⟩

/-- Apply every decision in turn. A failed apply is attributed, not propagated. -/
def Script.apply_all (script : Script proposal) :
    List GovernedCandidate → Db → Call (List Applied × List CandidateFailure) × Db
  | [], db => (.answers ([], []), db)
  | item :: rest, db =>
      match (script.begin item db).ending deps with
      | (.cancelled, db) => (.cancelled, db)
      | (.raises exc, db) =>
          let later := Script.apply_all script rest db
          (later.1.map fun r => (r.1, ⟨item.candidate.candidate_id, exc⟩ :: r.2), later.2)
      | (.answers outcome, db) =>
          let later := Script.apply_all script rest db
          (later.1.map fun r => (outcome :: r.1, r.2), later.2)

/-- What governing one proposal decided, and what became of each decision. -/
structure Governed where
  result : PipelineResult
  applied : List Applied
  failures : List CandidateFailure

/-- How many candidates became an assertion row. -/
def Governed.written (governed : Governed) : ℕ :=
  governed.applied.countP fun outcome => outcome.assertion_id.isSome

/-- Run the pipeline on one proposal and apply every decision it reached. -/
def govern (script : Script proposal) (db : Db) : Call Governed × Db :=
  match Orchestrator.run py deps pack weights betas proposal script.layer1 script.scoring with
  | .raises exc => (.raises exc, db)
  | .cancelled => (.cancelled, db)
  | .answers (result, failures) =>
      let (outcome, db) := script.apply_all deps result.governed db
      (outcome.map fun (applied, apply_failures) => ⟨result, applied, failures ++ apply_failures⟩, db)

/-- The job's result, as arq stores it. -/
inductive JobResult where
  | evaluated (trace_id : TraceId) (scored written rejected quarantined failed : ℕ)
  | refused (trace_id : TraceId) (code : String)

/-- How a job ends. -/
inductive JobEnd where
  | returned (result : JobResult)
  | raised (exc : Exc)
  | cancelled

/-- arq runs a job again when it is cancelled or raises `Retry`, and no error here is a `Retry`. -/
def JobEnd.rerun : JobEnd → Bool
  | .cancelled => true
  | .returned _ | .raised _ => false

/-- Decide whether arq should see this failure again. -/
def refused (exc : Exc) (code : String) (trace : TraceId) : JobEnd :=
  if exc.retryable then .raised exc else .returned (.refused trace code)

/-- Govern one proposal that the gateway accepted earlier. -/
def evaluate (script : Script proposal) (db : Db) : JobEnd × Db :=
  match govern py deps pack weights betas script db with
  | (.answers governed, db) =>
      (.returned (.evaluated proposal.trace_id governed.result.governed.length governed.written
        governed.result.rejected.length governed.result.quarantined.length governed.failures.length), db)
  | (.raises exc, db) =>
      match exc.code with
      | some code => (refused exc code proposal.trace_id, db)
      | none => (.raised exc, db)
  | (.cancelled, db) => (.cancelled, db)

/-! ### What it must keep -/

/-- The candidates the schema gate admitted. -/
def Script.admitted (script : Script proposal) : List GatedCandidate :=
  match script.layer1 with
  | .answers extracted => (gate py deps.casefold extracted.candidates pack).admitted
  | .raises _ | .cancelled => []

/-- The failures the job attributes. -/
def Script.failures (script : Script proposal) (db : Db) : List CandidateFailure :=
  match (govern py deps pack weights betas script db).1 with
  | .answers governed => governed.failures
  | .raises _ | .cancelled => []

/-- The DECISION events the job put on the chain. -/
def Script.events (script : Script proposal) (db : Db) : List AuditRow :=
  (decisions proposal.tenant_id proposal.trace_id
    (evaluate py deps pack weights betas script db).2).drop
      (decisions proposal.tenant_id proposal.trace_id db).length

/-- The event carries what was decided of the candidate. -/
def Script.Records (script : Script proposal) (v : GatedCandidate) (event : AuditRow) : Prop :=
  ∃ g, score py deps pack weights betas proposal script.scoring v = some (.ok g) ∧
    event.payload = g.record.model_dump

/-- Each candidate has one of the events for itself, or failed with an error no retry could help. -/
def Script.Accounts (script : Script proposal) (candidates : List GatedCandidate)
    (events : List AuditRow) (failures : List CandidateFailure) : Prop :=
  ∃ own : List (Option AuditRow), own.reduceOption.Subperm events ∧
    List.Forall₂ (fun v event =>
      (∃ e, event = some e ∧ script.Records py deps pack weights betas v e) ∨
      ∃ failure ∈ failures, failure.candidate_id = v.id ∧ failure.error.retryable = false)
      candidates own

/-- Unless the job runs again, every candidate the gate admitted is accounted for. -/
def Script.Kept (script : Script proposal) (db : Db) : Prop :=
  (evaluate py deps pack weights betas script db).1.rerun = false →
    script.Accounts py deps pack weights betas (script.admitted py deps pack)
      (script.events py deps pack weights betas db) (script.failures py deps pack weights betas db)

/-! ### Where a fault does harm -/

def ApplyRun.cancelled (a : ApplyRun proposal) : Bool :=
  match a.turn.fault with
  | some (.cancelled _) => true
  | _ => false

/-- The applies a run starts, each with the tables it finds. -/
def Script.applies (script : Script proposal) : List GovernedCandidate → Db → List (ApplyRun proposal)
  | [], _ => []
  | item :: rest, db =>
      let a := script.begin item db
      a :: if a.cancelled then [] else Script.applies script rest (a.ending deps).2

/-- The decisions the pipeline reached. -/
def Script.governed (script : Script proposal) (candidates : List GatedCandidate) :
    List GovernedCandidate :=
  candidates.filterMap fun v => governed_of (score py deps pack weights betas proposal script.scoring v)

/-- The job is cancelled before it is done. -/
def Script.Interrupted (script : Script proposal) (db : Db) : Prop :=
  script.layer1 = .cancelled ∨
    (∃ v ∈ script.admitted py deps pack, script.scoring v.id = .cancelled) ∨
    ∃ a ∈ script.applies deps (script.governed py deps pack weights betas (script.admitted py deps pack)) db,
      a.cancelled = true

/-- A transient fault undoes the apply: a retryable error before its COMMIT, or an incumbent gone. -/
def ApplyRun.Hit (a : ApplyRun proposal) : Prop :=
  match a.turn.fault with
  | some (.raises exc) => exc.retryable = true
  | some (.cancelled _) => False
  | some .unacknowledged | none => Outrun deps proposal.tenant_id a.turn.clock a.item a.found

/-- No transient fault reaches the scoring of a candidate or an apply. -/
def Script.Unharmed (script : Script proposal) (candidates : List GatedCandidate) (db : Db) : Prop :=
  (∀ v ∈ candidates, ∀ exc, script.scoring v.id = .raises exc → exc.retryable = false) ∧
    ∀ a ∈ script.applies deps (script.governed py deps pack weights betas candidates) db, ¬ a.Hit deps

/-! ### What becomes of one candidate -/

/-- The event that records a candidate's decision, and the error the candidate was reported with. Past
    the COMMIT the one error left is a lost acknowledgement. -/
structure Fate where
  id : CandidateId
  event : Option AuditRow
  failure : Option Exc
  acknowledged : event.isSome → ∀ exc ∈ failure, exc.retryable = true

def Fate.Lost (f : Fate) : Prop := f.event = none ∧ ∀ exc ∈ f.failure, exc.retryable = true

/-- CORRECT: the events account for all candidates exactly where none is lost. -/
theorem owned_iff {fs : List Fate} {R : Fate → AuditRow → Prop} (hR : ∀ f ∈ fs, ∀ e ∈ f.event, R f e) :
    (∃ own : List (Option AuditRow), own.reduceOption.Subperm (fs.filterMap Fate.event) ∧
      List.Forall₂ (fun f event => (∃ e, event = some e ∧ R f e) ∨
        ∃ exc ∈ f.failure, exc.retryable = false) fs own) ↔
    ∀ f ∈ fs, ¬ f.Lost := by
  constructor
  · rintro ⟨own, hown, haccount⟩ f hf ⟨hevent, hfailure⟩
    -- a candidate reported with no permanent error takes an event, and there is one only for each decided
    let claims : Fate → Bool := fun f => f.failure.all Exc.retryable
    have hclaims : ∀ {fs : List Fate} {own : List (Option AuditRow)},
        List.Forall₂ (fun f event => (∃ e, event = some e ∧ R f e) ∨
          ∃ exc ∈ f.failure, exc.retryable = false) fs own →
        (fs.filter claims).length ≤ own.reduceOption.length := by
      intro fs own h
      induction h with
      | nil => exact le_rfl
      | @cons f event fs own hhead _ ih =>
          rcases hhead with ⟨e, rfl, -⟩ | ⟨exc, hexc, hperm⟩
          · rw [List.reduceOption_cons_of_some, List.filter_cons]
            split
            · exact Nat.succ_le_succ ih
            · exact ih.trans (Nat.le_succ _)
          · have hnot : claims f = false := by
              obtain hexc : f.failure = some exc := hexc
              simp [claims, hexc, hperm]
            rw [List.filter_cons_of_neg (by simp [hnot])]
            cases event with
            | none => exact ih
            | some e => exact ih.trans (Nat.le_succ _)
    have hdecided : (fs.filter claims).filter (fun f => f.event.isSome) =
        fs.filter fun f => f.event.isSome := by
      rw [List.filter_filter]
      refine List.filter_congr fun f _ => ?_
      have hack := f.acknowledged
      cases h : f.event.isSome <;> simp_all [claims, Option.all_eq_true]
    have hsub : ((fs.filter claims).filter fun f => f.event.isSome).Sublist (fs.filter claims) :=
      List.filter_sublist
    have hsame := hsub.eq_of_length_le
      (by
        rw [hdecided]
        calc (fs.filter claims).length ≤ own.reduceOption.length := hclaims haccount
          _ ≤ (fs.filterMap Fate.event).length := hown.length_le
          _ = (fs.filter fun f => f.event.isSome).length := by
            rw [List.length_filterMap_eq_countP, List.countP_eq_length_filter])
    have hmem : f ∈ fs.filter claims :=
      List.mem_filter.mpr ⟨hf, by simpa [claims, Option.all_eq_true] using hfailure⟩
    rw [← hsame, List.mem_filter, hevent] at hmem
    exact absurd hmem.2 (by simp)
  · intro hkept
    refine ⟨fs.map Fate.event, ?_, ?_⟩
    · rw [List.reduceOption, List.filterMap_map]
      exact List.Subperm.refl _
    · rw [List.forall₂_map_right_iff, List.forall₂_same]
      intro f hf
      cases h : f.event with
      | some e => exact Or.inl ⟨e, rfl, hR f hf e h⟩
      | none =>
          right
          by_contra hnone
          refine hkept f hf ⟨h, fun exc hexc => ?_⟩
          by_contra hperm
          exact hnone ⟨exc, hexc, by simpa using hperm⟩

variable {py deps pack weights betas} {script : Script proposal} {db : Db}

theorem apply_decisions {tenant : TenantId} {trace : TraceId} {clock : ApplyClock}
    {g : GovernedCandidate} {db db' : Db} {o : Applied}
    (h : apply deps tenant trace clock g db = .ok (o, db')) :
    ∃ event, decisions tenant trace db' = decisions tenant trace db ++ [event] ∧
      event.payload = g.record.model_dump := by
  cases hw : refusal g with
  | some reason =>
      rw [apply_refused hw] at h
      obtain ⟨-, rfl⟩ := Prod.mk.inj (Except.ok.inj h)
      exact ⟨_, by simp [decisions, append_decision, append, next_link]; rfl, rfl⟩
  | none =>
      obtain ⟨-, -, -, rfl, -⟩ := (apply_body_ok hw).mp h
      refine ⟨next_link deps tenant trace .DECISION g.record.model_dump
        ((SELECT_HEAD tenant db).getD GENESIS) clock.applied_at, ?_, rfl⟩
      cases hr : retires g <;>
        simp [decisions, landed, landed_audit, hr, append_decision, append, next_link]

/-- What an apply that is not cancelled makes of its candidate. -/
theorem ApplyRun.fate (deps : Deps) (a : ApplyRun proposal) (hc : a.cancelled = false) :
    ∃ f : Fate, f.id = a.item.candidate.candidate_id ∧
      decisions proposal.tenant_id proposal.trace_id (a.ending deps).2 =
        decisions proposal.tenant_id proposal.trace_id a.found ++ f.event.toList ∧
      (∀ e ∈ f.event, e.payload = a.item.record.model_dump) ∧
      ((∃ exc, (a.ending deps).1 = .raises exc ∧ f.failure = some exc) ∨
        ∃ outcome, (a.ending deps).1 = .answers outcome ∧ f.failure = none) ∧
      (f.Lost ↔ a.Hit deps) := by
  obtain ⟨g, ⟨others, clock, fault⟩, found⟩ := a
  have hout : Transient (apply deps proposal.tenant_id proposal.trace_id clock g found) ↔
      Outrun deps proposal.tenant_id clock g found := apply_transient
  have hfailed : ∀ exc, ∃ f : Fate, f.id = g.candidate.candidate_id ∧ f.event = none ∧
      f.failure = some exc ∧ (f.Lost ↔ exc.retryable = true) := fun exc =>
    ⟨⟨_, none, some exc, by simp⟩, rfl, rfl, rfl, by simp [Fate.Lost]⟩
  cases hrun : apply deps proposal.tenant_id proposal.trace_id clock g found with
  | error exc =>
      rw [hrun, transient_error] at hout
      rcases fault with - | ⟨exc' | - | committed⟩
      · obtain ⟨f, hid, hevent, hfailure, hlost⟩ := hfailed exc
        refine ⟨f, hid, by simp [ending, hrun, hevent], by simp [hevent], ?_, hlost.trans hout⟩
        exact Or.inl ⟨exc, by simp [ending, hrun], hfailure⟩
      · obtain ⟨f, hid, hevent, hfailure, hlost⟩ := hfailed exc'
        refine ⟨f, hid, by simp [ending, hevent], by simp [hevent], ?_, hlost⟩
        exact Or.inl ⟨exc', by simp [ending], hfailure⟩
      · obtain ⟨f, hid, hevent, hfailure, hlost⟩ := hfailed exc
        refine ⟨f, hid, by simp [ending, hrun, hevent], by simp [hevent], ?_, hlost.trans hout⟩
        exact Or.inl ⟨exc, by simp [ending, hrun], hfailure⟩
      · simp [cancelled] at hc
  | ok landed =>
      obtain ⟨o, db'⟩ := landed
      obtain ⟨event, hdecided, hpayload⟩ := apply_decisions hrun
      rw [hrun, iff_false_left transient_ok] at hout
      rcases fault with - | ⟨exc' | - | committed⟩
      · refine ⟨⟨_, some event, none, by simp⟩, rfl, by simp [ending, hrun, hdecided], by simpa using hpayload,
          Or.inr ⟨o, by simp [ending, hrun], rfl⟩, ?_⟩
        simp [Fate.Lost, Hit, hout]
      · obtain ⟨f, hid, hevent, hfailure, hlost⟩ := hfailed exc'
        refine ⟨f, hid, by simp [ending, hevent], by simp [hevent], ?_, hlost⟩
        exact Or.inl ⟨exc', by simp [ending], hfailure⟩
      · refine ⟨⟨_, some event, some .StoreUnavailable, by simp [Exc.retryable]⟩, rfl,
          by simp [ending, hrun, hdecided], by simpa using hpayload,
          Or.inl ⟨.StoreUnavailable, by simp [ending, hrun], rfl⟩, ?_⟩
        simp [Fate.Lost, Hit, hout]
      · simp [cancelled] at hc

/-- What a run that is not cancelled makes of a list of admitted candidates. -/
structure Traced (py : Python) (deps : Deps) (pack : Pack) (weights : ConfidenceWeights py)
    (betas : RiskBetas) (script : Script proposal) (vs : List GatedCandidate) (db : Db)
    (fs : List Fate) (applied : List Applied) (failures : List CandidateFailure) (db' : Db) : Prop where
  ran : script.apply_all deps (script.governed py deps pack weights betas vs) db =
    (.answers (applied, failures), db')
  decided : decisions proposal.tenant_id proposal.trace_id db' =
    decisions proposal.tenant_id proposal.trace_id db ++ fs.filterMap Fate.event
  records : List.Forall₂ (fun v f => v.id = f.id ∧
    ∀ e ∈ f.event, script.Records py deps pack weights betas v e) vs fs
  reported : ∀ x, (x ∈ vs.filterMap fun v =>
      failure_of v.id (score py deps pack weights betas proposal script.scoring v)) ∨ x ∈ failures ↔
    ∃ f ∈ fs, f.id = x.candidate_id ∧ f.failure = some x.error
  unharmed : (∀ f ∈ fs, ¬ f.Lost) ↔ script.Unharmed py deps pack weights betas vs db

/-- A candidate fails its scoring with a retryable error exactly where one of its calls raises it. -/
theorem score_error {v : GatedCandidate} {exc : Exc} {scoring : CandidateId → Call Answers}
    (h : score py deps pack weights betas proposal scoring v = some (.error exc)) :
    exc.retryable = true ↔ ∃ e, scoring v.id = .raises e ∧ e.retryable = true := by
  unfold score at h
  cases hcall : scoring v.id with
  | cancelled => simp [hcall, Call.caught] at h
  | raises e =>
      obtain rfl : e = exc := by simpa [hcall, Call.caught] using h
      simp
  | answers a =>
      have herr : decide_one py deps pack weights betas proposal v a = .error exc := by
        simpa [hcall, Call.caught] using h
      have hperm : ¬ Transient (decide_one py deps pack weights betas proposal v a) :=
        decide_one_permanent
      rw [herr, transient_error] at hperm
      simp [hperm]

theorem score_ok {v : GatedCandidate} {g : GovernedCandidate} {scoring : CandidateId → Call Answers}
    (h : score py deps pack weights betas proposal scoring v = some (.ok g)) :
    g.candidate = v.candidate ∧ ∀ exc, scoring v.id ≠ .raises exc := by
  unfold score at h
  cases hcall : scoring v.id with
  | cancelled => simp [hcall, Call.caught] at h
  | raises e => simp [hcall, Call.caught] at h
  | answers a =>
      have hok : decide_one py deps pack weights betas proposal v a = .ok g := by
        simpa [hcall, Call.caught] using h
      simp only [decide_one, bind_ok, Except.ok.injEq] at hok
      obtain ⟨_, -, rfl⟩ := hok
      exact ⟨rfl, by simp⟩

/-- The run lemma: candidate by candidate, each scored one with its apply. -/
theorem Script.traced : ∀ {vs : List GatedCandidate} {db : Db},
    (∀ v ∈ vs, script.scoring v.id ≠ .cancelled) →
    (∀ a ∈ script.applies deps (script.governed py deps pack weights betas vs) db, a.cancelled = false) →
    ∃ fs applied failures db', Traced py deps pack weights betas script vs db fs applied failures db'
  | [], db, _, _ =>
      ⟨[], [], [], db, rfl, by simp, .nil, by simp, by simp [Unharmed, governed, applies]⟩
  | v :: vs, db, hscoring, happlies => by
      have hrest := fun w hw => hscoring w (List.mem_cons_of_mem _ hw)
      cases hscore : score py deps pack weights betas proposal script.scoring v with
      | none =>
          have hv := hscoring v List.mem_cons_self
          unfold score at hscore
          cases hcall : script.scoring v.id <;> simp_all [Call.caught]
      | some scored =>
          cases scored with
          | error exc =>
              have hgov : script.governed py deps pack weights betas (v :: vs) =
                  script.governed py deps pack weights betas vs := by
                simp [governed, hscore]
              rw [hgov] at happlies
              obtain ⟨fs, applied, failures, db', ht⟩ := Script.traced hrest happlies
              refine ⟨⟨v.id, none, some exc, by simp⟩ :: fs, applied, failures, db', ?_, ?_, ?_, ?_, ?_⟩
              · rw [hgov]
                exact ht.ran
              · simpa using ht.decided
              · exact .cons ⟨rfl, by simp⟩ ht.records
              · rintro ⟨xid, xerr⟩
                have hreported := ht.reported ⟨xid, xerr⟩
                simp only [List.filterMap_cons, hscore, failure_of_error, List.mem_cons, or_assoc,
                  hreported, exists_eq_or_imp]
                simp [eq_comm]
              · rw [List.forall_mem_cons, ht.unharmed]
                simp only [Unharmed, hgov, List.forall_mem_cons, and_assoc]
                refine and_congr_left fun _ => ?_
                rw [Fate.Lost]
                simp [score_error hscore]
          | ok g =>
              have hgov : script.governed py deps pack weights betas (v :: vs) =
                  g :: script.governed py deps pack weights betas vs := by
                simp [governed, hscore]
              obtain ⟨hcand, hanswered⟩ := score_ok hscore
              rw [hgov] at happlies
              simp only [applies, List.forall_mem_cons] at happlies
              obtain ⟨hlive, happlies⟩ := happlies
              rw [hlive, if_neg Bool.false_ne_true] at happlies
              obtain ⟨fs, applied, failures, db', ht⟩ := Script.traced hrest happlies
              obtain ⟨f, hid, hdecided, hpayload, hended, hlost⟩ := (script.begin g db).fate deps hlive
              have hfid : v.id = f.id := hid.symm ▸ (congrArg MemoryCandidate.candidate_id hcand).symm
              have happart : decisions proposal.tenant_id proposal.trace_id (script.begin g db).found =
                  decisions proposal.tenant_id proposal.trace_id db := Others.apart _ db
              have hchain : decisions proposal.tenant_id proposal.trace_id db' =
                  decisions proposal.tenant_id proposal.trace_id db ++ (f :: fs).filterMap Fate.event := by
                rw [ht.decided, hdecided, happart]
                cases h : f.event <;> simp [h]
              have hrecords : ∀ e ∈ f.event, script.Records py deps pack weights betas v e :=
                fun e he => ⟨g, hscore, hpayload e he⟩
              have hunharmed : (∀ f' ∈ f :: fs, ¬ f'.Lost) ↔
                  script.Unharmed py deps pack weights betas (v :: vs) db := by
                rw [List.forall_mem_cons, ht.unharmed, hlost]
                simp only [Unharmed, hgov, applies, List.forall_mem_cons, hlive, Bool.false_eq_true, if_false]
                simp only [hanswered, false_implies, implies_true, true_and]
                exact and_left_comm
              rcases hended with ⟨exc, hend, hfailure⟩ | ⟨outcome, hend, hfailure⟩
              · refine ⟨f :: fs, applied, ⟨g.candidate.candidate_id, exc⟩ :: failures, db', ?_, hchain,
                  .cons ⟨hfid, hrecords⟩ ht.records, ?_, hunharmed⟩
                · rw [hgov, Script.apply_all, ← Prod.mk.eta (p := (script.begin g db).ending deps), hend]
                  simp only [ht.ran, Call.map]
                · rintro ⟨xid, xerr⟩
                  have hreported := ht.reported ⟨xid, xerr⟩
                  simp only [List.filterMap_cons, hscore, failure_of_ok, List.mem_cons, ← hreported,
                    exists_eq_or_imp, hfailure, ← hfid, GatedCandidate.id, ← hcand, Option.some.injEq,
                    CandidateFailure.mk.injEq]
                  rw [or_left_comm, eq_comm (a := xid), eq_comm (a := xerr)]
              · refine ⟨f :: fs, outcome :: applied, failures, db', ?_, hchain,
                  .cons ⟨hfid, hrecords⟩ ht.records, ?_, hunharmed⟩
                · rw [hgov, Script.apply_all, ← Prod.mk.eta (p := (script.begin g db).ending deps), hend]
                  simp only [ht.ran, Call.map]
                · intro x
                  simp only [List.filterMap_cons, hscore, failure_of_ok, ht.reported, List.mem_cons,
                    exists_eq_or_imp, hfailure]
                  simp

/-! ### The whole job -/

theorem Script.apply_all_cancelled : ∀ {gs : List GovernedCandidate} {db : Db},
    (∃ a ∈ script.applies deps gs db, a.cancelled = true) → (script.apply_all deps gs db).1 = .cancelled
  | [], _, ⟨_, ha, _⟩ => absurd ha List.not_mem_nil
  | g :: gs, db, h => by
      cases hc : (script.begin g db).cancelled with
      | true =>
          have hend : ((script.begin g db).ending deps).1 = .cancelled := by
            unfold ApplyRun.cancelled at hc
            unfold ApplyRun.ending
            split at hc
            · next committed hfault =>
                rw [hfault]
                cases committed <;> cases apply deps proposal.tenant_id proposal.trace_id
                  (script.begin g db).turn.clock (script.begin g db).item (script.begin g db).found <;> rfl
            · cases hc
          rw [Script.apply_all, ← Prod.mk.eta (p := (script.begin g db).ending deps), hend]
      | false =>
          simp only [applies, hc, Bool.false_eq_true, if_false, List.mem_cons, exists_eq_or_imp,
            false_or] at h
          have ih := Script.apply_all_cancelled h
          obtain ⟨_, -, -, -, ⟨exc, hend, -⟩ | ⟨outcome, hend, -⟩, -⟩ :=
            (script.begin g db).fate deps hc <;>
          · rw [Script.apply_all, ← Prod.mk.eta (p := (script.begin g db).ending deps), hend]
            simp only [ih, Call.map]

/-- An interrupted job runs again. -/
theorem evaluate_interrupted (h : script.Interrupted py deps pack weights betas db) :
    (evaluate py deps pack weights betas script db).1 = .cancelled := by
  suffices hgovern : (govern py deps pack weights betas script db).1 = .cancelled by
    rw [evaluate, ← Prod.mk.eta (p := govern py deps pack weights betas script db), hgovern]
  cases hlayer : script.layer1 with
  | cancelled => simp [govern, Orchestrator.run, hlayer]
  | raises exc => simp [Script.Interrupted, Script.admitted, hlayer, Script.governed, Script.applies] at h
  | answers extracted =>
      have hadmitted : script.admitted py deps pack =
          (gate py deps.casefold extracted.candidates pack).admitted := by
        simp [Script.admitted, hlayer]
      by_cases hscoring : ∃ v ∈ script.admitted py deps pack, script.scoring v.id = .cancelled
      · rw [govern, hlayer, run_cancelled (hadmitted ▸ hscoring)]
      · have happlies := (h.resolve_left (by simp [hlayer])).resolve_left hscoring
        rw [hadmitted] at hscoring happlies
        push Not at hscoring
        obtain ⟨result, hrun, hgoverned⟩ := run_scored hscoring
        have hall := Script.apply_all_cancelled happlies
        unfold Script.governed at hall
        rw [govern, hlayer, hrun]
        simp only [hgoverned, hall, Call.map]

/-- A job no cancellation reaches ends for good, and has done what its run did. -/
theorem evaluate_traced {extracted : Extraction} (hlayer : script.layer1 = .answers extracted)
    (h : ¬ script.Interrupted py deps pack weights betas db) :
    (evaluate py deps pack weights betas script db).1.rerun = false ∧
      ∃ fs applied failures, Traced py deps pack weights betas script (script.admitted py deps pack) db fs
          applied failures (evaluate py deps pack weights betas script db).2 ∧
        ∀ x, x ∈ script.failures py deps pack weights betas db ↔
          ∃ f ∈ fs, f.id = x.candidate_id ∧ f.failure = some x.error := by
  have hadmitted : script.admitted py deps pack =
      (gate py deps.casefold extracted.candidates pack).admitted := by
    simp [Script.admitted, hlayer]
  simp only [Script.Interrupted, hlayer, reduceCtorEq, false_or, not_or, not_exists, not_and,
    Bool.not_eq_true] at h
  obtain ⟨hscoring, happlies⟩ := h
  obtain ⟨fs, applied, failures, db', ht⟩ := Script.traced hscoring happlies
  obtain ⟨result, hrun, hgoverned⟩ := run_scored (hadmitted ▸ hscoring)
  have hran := ht.ran
  rw [hadmitted, Script.governed, ← hgoverned] at hran
  have hgovern : govern py deps pack weights betas script db = (.answers ⟨result, applied,
      (script.admitted py deps pack).filterMap (fun v =>
        failure_of v.id (score py deps pack weights betas proposal script.scoring v)) ++ failures⟩, db') := by
    rw [govern, hlayer, hrun]
    simp only [hran, Call.map, hadmitted]
  refine ⟨by simp [evaluate, hgovern, JobEnd.rerun], fs, applied, failures, ?_, fun x => ?_⟩
  · simpa only [evaluate, hgovern] using ht
  · rw [← ht.reported x, Script.failures, hgovern, List.mem_append]

/-- What holds of the pairs of one list holds of another list of the same things. -/
theorem forall₂_transfer {α β γ : Type} {S : α → β → Prop} {P : α → γ → Prop} {Q : β → γ → Prop}
    {as : List α} {bs : List β} (h : List.Forall₂ S as bs) {cs : List γ}
    (hPQ : ∀ a ∈ as, ∀ b ∈ bs, S a b → ∀ c, P a c ↔ Q b c) :
    List.Forall₂ P as cs ↔ List.Forall₂ Q bs cs := by
  induction h generalizing cs with
  | nil => cases cs <;> simp
  | @cons a b as bs hab _ ih =>
      cases cs with
      | nil => simp
      | cons c cs =>
          rw [List.forall₂_cons, List.forall₂_cons, hPQ a List.mem_cons_self b List.mem_cons_self hab c]
          rw [ih fun a ha b hb => hPQ a (List.mem_cons_of_mem _ ha) b (List.mem_cons_of_mem _ hb)]

/-- CORRECT: a proposal keeps every candidate the gate admitted exactly where its job is cancelled, and
    so runs again, or no transient fault reaches the scoring or the apply of one of them. -/
theorem kept_iff (py : Python) (deps : Deps) (pack : Pack) (weights : ConfidenceWeights py)
    (betas : RiskBetas) (proposal : Proposal) (script : Script proposal) (db : Db) :
    script.Kept py deps pack weights betas db ↔
      script.Interrupted py deps pack weights betas db ∨
        script.Unharmed py deps pack weights betas (script.admitted py deps pack) db := by
  by_cases hint : script.Interrupted py deps pack weights betas db
  · simp [Script.Kept, evaluate_interrupted hint, JobEnd.rerun, hint]
  rw [or_iff_right hint]
  cases hlayer : script.layer1 with
  | cancelled => exact absurd (Or.inl hlayer) hint
  | raises exc =>
      have hnone : script.admitted py deps pack = [] := by simp [Script.admitted, hlayer]
      simp only [Script.Kept, hnone]
      exact iff_of_true (fun _ => ⟨[], List.nil_subperm, .nil⟩)
        (by simp [Script.Unharmed, Script.governed, Script.applies])
  | answers extracted =>
      obtain ⟨hrerun, fs, applied, failures, ht, hfailures⟩ := evaluate_traced hlayer hint
      have hevents : script.events py deps pack weights betas db = fs.filterMap Fate.event := by
        rw [Script.events, ht.decided, List.drop_left]
      have hnodup : ((script.admitted py deps pack).map GatedCandidate.id).Nodup := by
        simpa [Script.admitted, hlayer] using admitted_nodup extracted
      have hids : (script.admitted py deps pack).map GatedCandidate.id = fs.map Fate.id := by
        rw [← List.forall₂_eq_eq_eq, List.forall₂_map_left_iff, List.forall₂_map_right_iff]
        exact ht.records.imp fun _ _ h => h.1
      have hinjv := List.inj_on_of_nodup_map hnodup
      have hinjf := List.inj_on_of_nodup_map (hids ▸ hnodup)
      rw [Script.Kept, hevents, ← ht.unharmed, ← owned_iff (R := fun f e =>
        ∃ v ∈ script.admitted py deps pack, v.id = f.id ∧ script.Records py deps pack weights betas v e)]
      · simp only [hrerun, forall_const, Script.Accounts]
        refine exists_congr fun own => and_congr_right fun _ => forall₂_transfer ht.records ?_
        rintro v hv f hf ⟨hid, -⟩ event
        refine or_congr ?_ ?_
        · refine exists_congr fun e => and_congr_right fun _ => ⟨fun h => ⟨v, hv, hid, h⟩, ?_⟩
          rintro ⟨v', hv', hid', h⟩
          rwa [hinjv hv hv' (hid.trans hid'.symm)]
        · constructor
          · rintro ⟨x, hx, hxid, hperm⟩
            obtain ⟨f', hf', hid', hfailure⟩ := (hfailures x).mp hx
            obtain rfl := hinjf hf' hf (hid'.trans (hxid.trans hid))
            exact ⟨x.error, hfailure, hperm⟩
          · rintro ⟨exc, hexc, hperm⟩
            exact ⟨⟨v.id, exc⟩, (hfailures _).mpr ⟨f, hf, hid.symm, hexc⟩, rfl, hperm⟩
      · intro f hf e he
        obtain ⟨v, hv, hid, hrecords⟩ := forall₂_of_mem_right ht.records hf
        exact ⟨v, hv, hid, hrecords e he⟩

/-- CORRECT: a retryable error of the proposal as a whole ends the job without another run, with nothing
    decided: what is raised is no `Retry`. -/
theorem proposal_lost {exc : Exc} (h : script.layer1 = .raises exc) (hretry : exc.retryable = true) :
    evaluate py deps pack weights betas script db = (.raised exc, db) ∧
      (JobEnd.raised exc).rerun = false := by
  have hgovern : govern py deps pack weights betas script db = (.raises exc, db) := by
    simp [govern, Orchestrator.run, h]
  refine ⟨?_, rfl⟩
  rw [evaluate, hgovern]
  cases exc <;> first | rfl | cases hretry

/-! ### A provider that is down -/

namespace Clinical

/-- One stated language, while no model call of its scoring is answered. -/
def provider_down : Script ⟨"trace", "clinic", "patient:1", none⟩ where
  layer1 := .answers ⟨[language "trace" "c_1" "Welsh" 0], 0, 0, List.nodup_singleton _⟩
  scoring _ := .raises .ProviderUnavailable
  applying _ := ⟨⟨id, fun _ => rfl⟩, ⟨0, 0, 0⟩, none⟩

end Clinical

open Clinical in
/-- The job ends without another run, and the language is neither decided nor refused for good. -/
theorem provider_down_loses : ¬ ∀ (py : Python) (deps : Deps) (pack : Pack)
    (weights : ConfidenceWeights py) (betas : RiskBetas) (proposal : Proposal)
    (script : Script proposal) (db : Db), script.Kept py deps pack weights betas db := by
  intro h
  have hadmitted : provider_down.admitted python Clinical.deps clinical_pack =
      [⟨language "trace" "c_1" "Welsh" 0, .PASS, 1, "SCHEMA_OK"⟩] := by decide +kernel
  obtain ⟨own, hown, haccount⟩ := h python Clinical.deps clinical_pack V1_WEIGHTS V1_BETAS _
    provider_down Db.empty (by decide +kernel)
  have hevents : provider_down.events python Clinical.deps clinical_pack V1_WEIGHTS V1_BETAS Db.empty =
      [] := by decide +kernel
  have hfailures : provider_down.failures python Clinical.deps clinical_pack V1_WEIGHTS V1_BETAS
      Db.empty = [⟨"c_1", .ProviderUnavailable⟩] := by decide +kernel
  rw [hadmitted, hfailures] at haccount
  rw [hevents] at hown
  cases haccount with
  | cons hfirst _ =>
      rcases hfirst with ⟨e, rfl, -⟩ | ⟨failure, hfailure, -, hperm⟩
      · simpa [List.reduceOption_cons_of_some] using hown.length_le
      · obtain rfl := List.mem_singleton.mp hfailure
        cases hperm

end GuardMem
