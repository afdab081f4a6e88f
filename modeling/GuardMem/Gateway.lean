import GuardMem.Lib.Sha256
import GuardMem.Lib.Table
import GuardMem.Lib.Transition
import GuardMem.Schemas.Entity
import Mathlib.Tactic.Linarith

/-! Whether a retried write is governed once: `POST /memory/propose` and its `IdempotencyStore`.

    A request looks its key up, does the work and records the answer in three steps, and each attempt
    does the work under a trace of its own. So repeats of one write are governed once exactly where, of
    any two that begin their work, one was recorded before the other looked up (`governed_once_iff`).
    Nothing sees to that: two repeats that overlap are governed twice (`overlap_governs_twice`). -/

namespace GuardMem.Gateway

open Lib.Table Lib.Transition

/-! ### The route's data -/

inductive Mode where
  | async
  | strict
  deriving DecidableEq

/-- What a caller submits; the turns as the queue carries them. -/
structure ProposeRequest where
  «namespace» : Namespace
  turns : List Json
  mode : Mode := .async
  source_tier : SourceTier := .UNVERIFIED_USER

/-- What every repeat of one write carries: its caller's tenant, its `Idempotency-Key`, and its body, as
    received and as validated. An empty body does not validate. -/
structure Write where
  tenant_id : TenantId
  idempotency_key : String
  raw : List UInt8
  body : ProposeRequest
  received : raw ≠ []

/-- `sha256` of the request body. -/
def Write.body_hash (w : Write) : String := String.ofList (Lib.Sha256.hex (Lib.Sha256.sha256 w.raw))

/-- The Redis key the write's stored response lives at. -/
def Write.key (w : Write) : String :=
  "idem:" ++ w.tenant_id ++ ":" ++ w.idempotency_key ++ ":" ++ w.body_hash

/-- `Accepted`, with 202, or `Decided`, with 200. -/
inductive Answer where
  | accepted (trace_id : TraceId) (body_hash : Option String)
  | decided (trace_id : TraceId) (scored written rejected quarantined failed : ℕ)
  deriving DecidableEq

def Answer.trace_id : Answer → TraceId
  | .accepted trace_id _ => trace_id
  | .decided trace_id .. => trace_id

def Answer.model_dump : Answer → Json
  | .accepted trace_id body_hash => .obj <| .ofList
      [("trace_id", .str trace_id), ("status", .str "accepted"),
       ("body_hash", match body_hash with | some h => .str h | none => .null)]
  | .decided trace_id scored written rejected quarantined failed => .obj <| .ofList
      [("trace_id", .str trace_id), ("status", .str "decided"), ("scored", .num scored),
       ("written", .num written), ("rejected", .num rejected), ("quarantined", .num quarantined),
       ("failed", .num failed)]

/-- A `str` field. -/
def str_field (key : String) (stored : JsonObj) : Option String :=
  match stored.lookup key with
  | some (.str s) => some s
  | _ => none

/-- An `int` field with default 0, holding a count. -/
def count_field (key : String) (stored : JsonObj) : Option ℕ :=
  match stored.lookup key with
  | none => some 0
  | some (.num q) => if q.den = 1 ∧ 0 ≤ q then some q.num.toNat else none
  | some _ => none

/-- A `str | None` field with default `None`. -/
def optional_field (key : String) (stored : JsonObj) : Option (Option String) :=
  match stored.lookup key with
  | none | some .null => some none
  | some (.str s) => some (some s)
  | some _ => none

/-- Rebuild the response a previous attempt returned, told apart by its `status`. -/
def replayed : Json → Option Answer
  | .obj stored =>
      if stored.lookup "status" = some (.str "decided") then do
        some (.decided (← str_field "trace_id" stored) (← count_field "scored" stored)
          (← count_field "written" stored) (← count_field "rejected" stored)
          (← count_field "quarantined" stored) (← count_field "failed" stored))
      else if stored.lookup "status" ∈ [none, some (.str "accepted")] then do
        some (.accepted (← str_field "trace_id" stored) (← optional_field "body_hash" stored))
      else none
  | _ => none

/-- CORRECT: a replay answers as the first attempt did. -/
@[simp] theorem replayed_model_dump (a : Answer) : replayed a.model_dump = some a := by
  cases a with
  | accepted trace_id body_hash =>
      cases body_hash <;>
        simp [Answer.model_dump, replayed, JsonObj.ofList, JsonObj.lookup, str_field, optional_field]
  | decided trace_id scored written rejected quarantined failed =>
      simp [Answer.model_dump, replayed, JsonObj.ofList, JsonObj.lookup, str_field, count_field]

/-- One job on the queue. -/
structure Job where
  function : String
  payload : Json
  job_id : String
  queue_name : String
  deriving DecidableEq

/-- What `enqueue` hands to the worker. -/
def job (w : Write) (default_k : ℕ) (trace : TraceId) : Job where
  function := "evaluate"
  payload := .obj <| .ofList
    [("tenant_id", .str w.tenant_id), ("trace_id", .str trace), ("namespace", .str w.body.namespace),
     ("turns", .arr (.ofList w.body.turns)), ("source_tier", .str w.body.source_tier.value),
     ("k", .num default_k), ("tier", .str "balanced"), ("body_hash", .str w.body_hash)]
  job_id := trace
  queue_name := "guardmem:eval"

/-! ### The requests, step by step -/

/-- How far one request has got: it missed, its work runs under a trace, its work is done, it was
    answered, it was answered with an error, or it is gone without an answer. -/
inductive Phase where
  | arrived
  | missed
  | working (trace : TraceId)
  | worked (answer : Answer)
  | answered (answer : Answer)
  | failed
  | gone
  deriving DecidableEq

/-- What the store holds, every job put on the queue, the trace of every `govern` that was started, and
    the requests of one write in order of arrival. -/
structure State where
  redis : String → Option Json
  jobs : List Job
  governs : List TraceId
  requests : List Phase

def State.init : State := ⟨fun _ => none, [], [], []⟩

/-- What `govern` came to: scored, written, rejected, quarantined and failed. -/
structure Counts where
  scored : ℕ
  written : ℕ
  rejected : ℕ
  quarantined : ℕ
  failed : ℕ

/-- One step: of request `i`, or of other traffic on another key of the store. A request fails where
    Redis, the queue or the pipeline raises, and is gone where its process or its connection is. -/
inductive Label where
  | arrive
  | get (i : ℕ)
  | work (i : ℕ) (trace : TraceId)
  | finish (i : ℕ) (counts : Counts)
  | put (i : ℕ)
  | fail (i : ℕ)
  | crash (i : ℕ)
  | other (key : String) (value : Option Json)

variable (w : Write) (default_k : ℕ)

def State.set (s : State) (i : ℕ) (phase : Phase) : State :=
  { s with requests := s.requests.set i phase }

/-- `IdempotencyStore.get`, and the replay of what it held. -/
def looked_up (s : State) : Phase :=
  match s.redis w.key with
  | none => .missed
  | some stored =>
      match replayed stored with
      | some answer => .answered answer
      | none => .failed

/-- The work begins: the job is on the queue, unless one of its id is, or `govern` runs. -/
def begin_work (trace : TraceId) (s : State) : State :=
  match w.body.mode with
  | .async => { s with jobs := insertNew Job.job_id (job w default_k trace) s.jobs }
  | .strict => { s with governs := s.governs ++ [trace] }

/-- The answer of a finished piece of work. -/
def answer_of (trace : TraceId) (counts : Counts) : Answer :=
  match w.body.mode with
  | .async => .accepted trace (some w.body_hash)
  | .strict => .decided trace counts.scored counts.written counts.rejected counts.quarantined counts.failed

/-- `IdempotencyStore.put`. -/
def record (answer : Answer) (s : State) : State :=
  { s with redis := fun key => if key = w.key then some answer.model_dump else s.redis key }

/-- No response has left yet. -/
def Phase.live : Phase → Bool
  | .arrived | .missed | .working _ | .worked _ => true
  | .answered _ | .failed | .gone => false

def step (s : State) : Label → Option State
  | .arrive => some { s with requests := s.requests ++ [.arrived] }
  | .get i => if s.requests[i]? = some .arrived then some (s.set i (looked_up w s)) else none
  | .work i trace =>
      if s.requests[i]? = some .missed then
        some ((begin_work w default_k trace s).set i (.working trace))
      else none
  | .finish i counts =>
      match s.requests[i]? with
      | some (.working trace) => some (s.set i (.worked (answer_of w trace counts)))
      | _ => none
  | .put i =>
      match s.requests[i]? with
      | some (.worked answer) => some ((record w answer s).set i (.answered answer))
      | _ => none
  | .fail i => if (s.requests[i]?).any Phase.live then some (s.set i .failed) else none
  | .crash i => if (s.requests[i]?).any Phase.live then some (s.set i .gone) else none
  | .other key value =>
      if key = w.key then none
      else some { s with redis := fun k => if k = key then value else s.redis k }

/-! ### Governed once -/

/-- The traces the write was enqueued or governed under. -/
def State.traces (s : State) : List TraceId := s.jobs.map Job.job_id ++ s.governs

/-- The answers that were sent. -/
def State.answers (s : State) : List Answer :=
  s.requests.filterMap fun phase => match phase with
    | .answered answer => some answer
    | _ => none

/-- The write was enqueued or governed at most once, and every answer names the same trace. -/
def GovernedOnce (s : State) : Prop :=
  s.traces.length ≤ 1 ∧ ∀ a ∈ s.answers, ∀ b ∈ s.answers, a.trace_id = b.trace_id

instance : DecidablePred GovernedOnce := fun s =>
  inferInstanceAs (Decidable (s.traces.length ≤ 1 ∧ ∀ a ∈ s.answers, ∀ b ∈ s.answers, a.trace_id = b.trace_id))

/-- Of any two requests that begin their work, one's answer was recorded before the other looked the key
    up. On the queue only work under another trace counts, since a job's id is its trace. -/
def InTurn (w : Write) (ls : List Label) : Prop :=
  ∀ i j t u, i ≠ j → .work i t ∈ ls → .work j u ∈ ls → (w.body.mode = .async → t ≠ u) →
    [.put i, .get j].Sublist ls ∨ [.put j, .get i].Sublist ls

/-- How far along a phase is. -/
def Phase.rank : Phase → ℕ
  | .arrived => 0
  | .missed => 1
  | .working _ => 2
  | .worked _ => 3
  | .answered _ | .failed | .gone => 4

/-- A phase names traces of the write only. -/
def Phase.Of (traces : List TraceId) : Phase → Prop
  | .working trace => trace ∈ traces
  | .worked answer | .answered answer => answer.trace_id ∈ traces
  | .arrived | .missed | .failed | .gone => True

/-- What every step keeps: each mode works its own way, and what is stored, in work or answered was worked. -/
structure Sound (s : State) : Prop where
  mode : match w.body.mode with
    | .async => s.governs = []
    | .strict => s.jobs = []
  phases : ∀ phase ∈ s.requests, phase.Of s.traces
  stored : ∀ stored, s.redis w.key = some stored →
    ∃ answer : Answer, stored = answer.model_dump ∧ answer.trace_id ∈ s.traces

variable {w default_k} {s s' : State}

theorem sound_init : Sound w State.init where
  mode := by cases w.body.mode <;> rfl
  phases := by simp [State.init]
  stored := by simp [State.init]

theorem Phase.Of.mono {phase : Phase} {ts ts' : List TraceId} (h : phase.Of ts) (hsub : ts ⊆ ts') :
    phase.Of ts' := by
  cases phase <;> first | exact hsub h | trivial

/-- Moving one request keeps the rest, whatever the store and the work have become. -/
theorem Sound.set {i : ℕ} {phase : Phase} (h : Sound w s) (hp : phase.Of s.traces) :
    Sound w (s.set i phase) where
  mode := h.mode
  phases p hmem := by
    rcases List.mem_or_eq_of_mem_set hmem with hmem | rfl
    · exact h.phases p hmem
    · exact hp
  stored := h.stored

/-- Work that begins adds its trace. -/
theorem mem_traces_begin {trace t : TraceId} :
    t ∈ (begin_work w default_k trace s).traces ↔ t ∈ s.traces ∨ t = trace := by
  unfold begin_work
  cases w.body.mode with
  | async =>
      simp only [State.traces, List.mem_append, mem_keys_insertNew]
      exact or_right_comm
  | strict => simp [State.traces, or_assoc]

theorem Sound.begin_work {trace : TraceId} (h : Sound w s) : Sound w (begin_work w default_k trace s) where
  mode := by
    have hmode := h.mode
    unfold Gateway.begin_work
    cases hm : w.body.mode <;> simpa [hm] using hmode
  phases phase hphase := by
    have hold : phase ∈ s.requests := by
      unfold Gateway.begin_work at hphase
      cases hm : w.body.mode <;> simpa [hm] using hphase
    exact (h.phases phase hold).mono fun t ht => mem_traces_begin.mpr (Or.inl ht)
  stored stored hstored := by
    have hold : s.redis w.key = some stored := by
      unfold Gateway.begin_work at hstored
      cases hm : w.body.mode <;> simpa [hm] using hstored
    obtain ⟨answer, hdump, ht⟩ := h.stored stored hold
    exact ⟨answer, hdump, mem_traces_begin.mpr (Or.inl ht)⟩

theorem Sound.record {answer : Answer} (h : Sound w s) (ht : answer.trace_id ∈ s.traces) :
    Sound w (record w answer s) where
  mode := h.mode
  phases := h.phases
  stored stored hstored := by
    obtain rfl : answer.model_dump = stored := by simpa [Gateway.record] using hstored
    exact ⟨answer, rfl, ht⟩

theorem Sound.phase {i : ℕ} {phase : Phase} (h : Sound w s) (hi : s.requests[i]? = some phase) :
    phase.Of s.traces :=
  h.phases phase (List.mem_of_getElem? hi)

/-- A replay names a trace of the write. -/
theorem Sound.looked_up (h : Sound w s) : (looked_up w s).Of s.traces := by
  unfold Gateway.looked_up
  cases hr : s.redis w.key with
  | none => trivial
  | some stored =>
      obtain ⟨answer, rfl, ht⟩ := h.stored stored hr
      simpa [Phase.Of] using ht

theorem answer_of_trace {trace : TraceId} {counts : Counts} :
    (answer_of w trace counts).trace_id = trace := by
  unfold answer_of
  cases w.body.mode <;> rfl

theorem Phase.rank_le (phase : Phase) : phase.rank ≤ 4 := by
  cases phase <;> simp [Phase.rank]

/-- Everything a step can do. -/
theorem step_cases {l : Label} (h : step w default_k s l = some s') :
    s' = { s with requests := s.requests ++ [.arrived] } ∨
    (∃ i trace, l = .work i trace ∧ s.requests[i]? = some .missed ∧
      s' = (begin_work w default_k trace s).set i (.working trace)) ∨
    (∃ i answer, s.requests[i]? = some (.worked answer) ∧ s' = (record w answer s).set i (.answered answer)) ∨
    (∃ i old phase, s.requests[i]? = some old ∧ old.rank ≤ phase.rank ∧ (Sound w s → phase.Of s.traces) ∧
      s' = s.set i phase) ∨
    ∃ key value, key ≠ w.key ∧ s' = { s with redis := fun k => if k = key then value else s.redis k } := by
  cases l with
  | arrive => exact Or.inl (Option.some.inj h).symm
  | get i =>
      simp only [step, Option.ite_none_right_eq_some, Option.some.injEq] at h
      obtain ⟨hi, rfl⟩ := h
      exact Or.inr (Or.inr (Or.inr (Or.inl ⟨i, _, _, hi, Nat.zero_le _, Sound.looked_up, rfl⟩)))
  | work i trace =>
      simp only [step, Option.ite_none_right_eq_some, Option.some.injEq] at h
      obtain ⟨hi, rfl⟩ := h
      exact Or.inr (Or.inl ⟨i, trace, rfl, hi, rfl⟩)
  | finish i counts =>
      simp only [step] at h
      split at h
      · next trace hi =>
          obtain rfl := Option.some.inj h
          refine Or.inr (Or.inr (Or.inr (Or.inl ⟨i, _, _, hi, by simp [Phase.rank], fun hs => ?_, rfl⟩)))
          have ht : trace ∈ s.traces := hs.phase hi
          simpa [Phase.Of, answer_of_trace] using ht
      · cases h
  | put i =>
      simp only [step] at h
      split at h
      · next answer hi => exact Or.inr (Or.inr (Or.inl ⟨i, answer, hi, (Option.some.inj h).symm⟩))
      · cases h
  | fail i =>
      simp only [step, Option.ite_none_right_eq_some, Option.some.injEq] at h
      obtain ⟨hi, rfl⟩ := h
      obtain ⟨old, hold, -⟩ := (Option.any_eq_true ..).mp hi
      exact Or.inr (Or.inr (Or.inr (Or.inl ⟨i, old, .failed, hold, old.rank_le, fun _ => trivial, rfl⟩)))
  | crash i =>
      simp only [step, Option.ite_none_right_eq_some, Option.some.injEq] at h
      obtain ⟨hi, rfl⟩ := h
      obtain ⟨old, hold, -⟩ := (Option.any_eq_true ..).mp hi
      exact Or.inr (Or.inr (Or.inr (Or.inl ⟨i, old, .gone, hold, old.rank_le, fun _ => trivial, rfl⟩)))
  | other key value =>
      simp only [step, Option.ite_none_left_eq_some, Option.some.injEq] at h
      obtain ⟨hkey, rfl⟩ := h
      exact Or.inr (Or.inr (Or.inr (Or.inr ⟨key, value, hkey, rfl⟩)))

/-- The step lemma. -/
theorem step_sound {l : Label} (h : step w default_k s l = some s') (hs : Sound w s) : Sound w s' := by
  rcases step_cases h with rfl | ⟨i, trace, -, -, rfl⟩ | ⟨i, answer, hi, rfl⟩ |
    ⟨i, old, phase, -, -, hof, rfl⟩ | ⟨key, value, hkey, rfl⟩
  · refine ⟨hs.mode, fun phase hphase => ?_, hs.stored⟩
    rcases List.mem_append.mp hphase with hphase | hphase
    · exact hs.phases phase hphase
    · obtain rfl := List.mem_singleton.mp hphase
      trivial
  · exact hs.begin_work.set (mem_traces_begin.mpr (Or.inr rfl))
  · have ht : answer.trace_id ∈ s.traces := hs.phase hi
    exact (hs.record ht).set ht
  · exact hs.set (hof hs)
  · refine ⟨hs.mode, hs.phases, fun stored hstored => hs.stored stored ?_⟩
    simpa [hkey.symm] using hstored

/-- With one trace at most, all answers name the same. -/
theorem Sound.governedOnce (hs : Sound w s) : GovernedOnce s ↔ s.traces.length ≤ 1 := by
  refine ⟨fun h => h.1, fun h => ⟨h, ?_⟩⟩
  have hanswer : ∀ a ∈ s.answers, a.trace_id ∈ s.traces := by
    intro a ha
    obtain ⟨phase, hphase, hsome⟩ := List.mem_filterMap.mp ha
    have hof := hs.phases phase hphase
    cases phase <;> simp_all [Phase.Of]
  have hsame : ∀ t ∈ s.traces, ∀ u ∈ s.traces, t = u := by
    match hts : s.traces, h with
    | [], _ => simp
    | [t], _ => simp
  exact fun a ha b hb => hsame _ (hanswer a ha) _ (hanswer b hb)

/-! ### What the labels taken say of the state -/

/-- The requests that began their work, each with the trace it ran under. -/
def begun (ls : List Label) : List (ℕ × TraceId) :=
  ls.filterMap fun l => match l with
    | .work i trace => some (i, trace)
    | _ => none

theorem mem_begun {ls : List Label} {i : ℕ} {t : TraceId} : (i, t) ∈ begun ls ↔ .work i t ∈ ls := by
  simp only [begun, List.mem_filterMap]
  constructor
  · rintro ⟨l, hl, heq⟩
    cases l <;> simp_all
  · exact fun h => ⟨_, h, rfl⟩

theorem begun_append {ls : List Label} {l : Label} : begun (ls ++ [l]) = begun ls ++ begun [l] := by
  simp [begun]

/-- A request's phase only moves on. -/
theorem rank_step {l : Label} {j : ℕ} {phase : Phase} (h : step w default_k s l = some s')
    (hj : s.requests[j]? = some phase) :
    ∃ next, s'.requests[j]? = some next ∧ phase.rank ≤ next.rank := by
  have hset : ∀ (new : Phase) {i : ℕ} {old : Phase}, s.requests[i]? = some old → old.rank ≤ new.rank →
      ∃ next, (s.requests.set i new)[j]? = some next ∧ phase.rank ≤ next.rank := by
    intro new i old hi hrank
    rcases eq_or_ne i j with rfl | hne
    · obtain rfl := Option.some.inj (hi.symm.trans hj)
      exact ⟨new, by simp [(List.getElem?_eq_some_iff.mp hi).1], hrank⟩
    · exact ⟨phase, by simp [List.getElem?_set_ne hne, hj], le_rfl⟩
  rcases step_cases h with rfl | ⟨i, trace, -, hi, rfl⟩ | ⟨i, answer, hi, rfl⟩ |
    ⟨i, old, new, hi, hrank, -, rfl⟩ | ⟨key, value, -, rfl⟩
  · exact ⟨phase, by simp [List.getElem?_append_left (List.getElem?_eq_some_iff.mp hj).1, hj], le_rfl⟩
  · have hkeep : (begin_work w default_k trace s).requests = s.requests := by
      unfold begin_work
      cases w.body.mode <;> rfl
    simpa only [State.set, hkeep] using hset (.working trace) hi (by simp [Phase.rank])
  · exact hset (.answered answer) hi (by simp [Phase.rank])
  · exact hset new hi hrank
  · exact ⟨phase, hj, le_rfl⟩

/-- A record is not lost. -/
theorem stored_step {l : Label} (h : step w default_k s l = some s') (hs : s.redis w.key ≠ none) :
    s'.redis w.key ≠ none := by
  rcases step_cases h with rfl | ⟨i, trace, -, -, rfl⟩ | ⟨i, answer, -, rfl⟩ | ⟨i, old, new, -, -, -, rfl⟩ |
    ⟨key, value, hkey, rfl⟩
  · exact hs
  · unfold begin_work
    cases w.body.mode <;> exact hs
  · simp [record, State.set]
  · exact hs
  · simpa [hkey.symm] using hs

/-- A look-up after a record answers, or fails: it does not miss. -/
theorem get_stored {j : ℕ} (h : step w default_k s (.get j) = some s') (hs : s.redis w.key ≠ none) :
    ∃ phase, s'.requests[j]? = some phase ∧ phase.rank = 4 := by
  simp only [step, Option.ite_none_right_eq_some, Option.some.injEq] at h
  obtain ⟨hj, rfl⟩ := h
  refine ⟨looked_up w s, by simp [State.set, (List.getElem?_eq_some_iff.mp hj).1], ?_⟩
  unfold looked_up
  obtain ⟨stored, hstored⟩ := Option.ne_none_iff_exists'.mp hs
  rw [hstored]
  cases hr : replayed stored <;> simp [hr, Phase.rank]

/-- What a run's labels say of the state it leads to. -/
structure Traced (w : Write) (ls : List Label) (s : State) : Prop where
  stored : ∀ i, .put i ∈ ls → s.redis w.key ≠ none
  settled : ∀ i j, [.put i, .get j].Sublist ls → ∃ phase, s.requests[j]? = some phase ∧ phase.rank = 4
  working : ∀ j u, .work j u ∈ ls → ∃ phase, s.requests[j]? = some phase ∧ 2 ≤ phase.rank
  apart : ∀ i j u, [.put i, .get j].Sublist ls → .work j u ∉ ls
  once : ((begun ls).map Prod.fst).Nodup
  jobs : w.body.mode = .async →
    (s.jobs.map Job.job_id).Nodup ∧ ∀ t, t ∈ s.jobs.map Job.job_id ↔ ∃ i, .work i t ∈ ls
  governs : w.body.mode = .strict → s.governs = (begun ls).map Prod.snd

/-- One put before one get, in a run longer by one label. -/
theorem put_get_append {ls : List Label} {l : Label} {i j : ℕ} :
    [.put i, .get j].Sublist (ls ++ [l]) ↔ [.put i, .get j].Sublist ls ∨ (.put i ∈ ls ∧ l = .get j) := by
  constructor
  · intro h
    obtain ⟨xs, ys, heq, hxs, hys⟩ := List.sublist_append_iff.mp h
    rcases ys with _ | ⟨y, _ | ⟨y', ys⟩⟩
    · exact Or.inl (by simpa [heq] using hxs)
    · obtain rfl : y = l := by simpa using hys
      obtain ⟨rfl, rfl⟩ : xs = [.put i] ∧ y = .get j := by
        rcases xs with _ | ⟨x, _ | ⟨x', xs⟩⟩ <;> simp_all
      exact Or.inr ⟨by simpa using hxs, rfl⟩
    · have := hys.length_le
      simp at this
  · rintro (h | ⟨h, rfl⟩)
    · exact h.trans (List.sublist_append_left _ _)
    · exact (List.singleton_sublist.mpr h).append (List.Sublist.refl [Label.get j])
/-- Only a request that missed begins its work; from then on it is at work or further. -/
theorem work_step {j : ℕ} {u : TraceId} (h : step w default_k s (.work j u) = some s') :
    s.requests[j]? = some .missed ∧ s'.requests[j]? = some (.working u) ∧
      s'.jobs = (begin_work w default_k u s).jobs ∧ s'.governs = (begin_work w default_k u s).governs := by
  simp only [step, Option.ite_none_right_eq_some, Option.some.injEq] at h
  obtain ⟨hj, rfl⟩ := h
  have hkeep : (begin_work w default_k u s).requests = s.requests := by
    unfold begin_work
    cases w.body.mode <;> rfl
  exact ⟨hj, by simp [State.set, hkeep, (List.getElem?_eq_some_iff.mp hj).1], rfl, rfl⟩

/-- Every other step leaves the work alone. -/
theorem idle_step {l : Label} (h : step w default_k s l = some s') (hl : ∀ i trace, l ≠ .work i trace) :
    s'.jobs = s.jobs ∧ s'.governs = s.governs := by
  rcases step_cases h with rfl | ⟨i, trace, rfl, -⟩ | ⟨_, _, -, rfl⟩ | ⟨_, _, _, -, -, -, rfl⟩ | ⟨_, _, -, rfl⟩
  · exact ⟨rfl, rfl⟩
  · exact absurd rfl (hl i trace)
  · exact ⟨rfl, rfl⟩
  · exact ⟨rfl, rfl⟩
  · exact ⟨rfl, rfl⟩

/-- The step lemma of what the labels say: a request begins its work only where it missed, and does not
    miss once the answer is recorded. -/
theorem Traced.step {ls : List Label} {l : Label} (hs : Traced w ls s)
    (h : step w default_k s l = some s') : Traced w (ls ++ [l]) s' := by
  have hworking : ∀ j u, .work j u ∈ ls ++ [l] → ∃ phase, s'.requests[j]? = some phase ∧ 2 ≤ phase.rank := by
    intro j u hwork
    rcases List.mem_append.mp hwork with hwork | hwork
    · obtain ⟨phase, hphase, hrank⟩ := hs.working j u hwork
      obtain ⟨next, hnext, hle⟩ := rank_step h hphase
      exact ⟨next, hnext, hrank.trans hle⟩
    · obtain rfl := List.mem_singleton.mp hwork
      exact ⟨_, (work_step h).2.1, le_rfl⟩
  -- a request that begins its work now has not begun it before
  have hnew : ∀ j u v, l = .work j u → .work j v ∉ ls := by
    rintro j u v rfl hv
    obtain ⟨phase, hphase, hrank⟩ := hs.working j v hv
    obtain rfl := Option.some.inj ((work_step h).1.symm.trans hphase)
    simp [Phase.rank] at hrank
  refine ⟨fun i hput => ?_, fun i j hlook => ?_, hworking, fun i j u hlook hwork => ?_, ?_, fun hm => ?_,
    fun hm => ?_⟩
  · rcases List.mem_append.mp hput with hput | hput
    · exact stored_step h (hs.stored i hput)
    · obtain rfl := List.mem_singleton.mp hput
      simp only [Gateway.step] at h
      split at h
      · obtain rfl := Option.some.inj h
        simp [record, State.set]
      · cases h
  · rcases put_get_append.mp hlook with hlook | ⟨hput, rfl⟩
    · obtain ⟨phase, hphase, hrank⟩ := hs.settled i j hlook
      obtain ⟨next, hnext, hle⟩ := rank_step h hphase
      exact ⟨next, hnext, le_antisymm next.rank_le (hrank ▸ hle)⟩
    · exact get_stored h (hs.stored i hput)
  · rcases put_get_append.mp hlook with hbefore | ⟨-, rfl⟩
    · rcases List.mem_append.mp hwork with hwork | hwork
      · exact hs.apart i j u hbefore hwork
      · obtain rfl := List.mem_singleton.mp hwork
        obtain ⟨phase, hphase, hrank⟩ := hs.settled i j hbefore
        obtain rfl := Option.some.inj ((work_step h).1.symm.trans hphase)
        simp [Phase.rank] at hrank
    · -- the request looks up now, so it has not begun its work before
      have hold : .work j u ∈ ls := by simpa using hwork
      obtain ⟨phase, hphase, hrank⟩ := hs.working j u hold
      simp only [Gateway.step, Option.ite_none_right_eq_some] at h
      obtain rfl := Option.some.inj (h.1.symm.trans hphase)
      simp [Phase.rank] at hrank
  · rw [begun_append, List.map_append]
    refine List.nodup_append.mpr ⟨hs.once, ?_, ?_⟩
    · cases l <;> simp [begun]
    · rintro i hi j hj rfl
      obtain ⟨⟨i, v⟩, hv, rfl⟩ := List.mem_map.mp hi
      obtain ⟨⟨j, u⟩, hu, rfl⟩ := List.mem_map.mp hj
      exact hnew j u v (List.mem_singleton.mp (mem_begun.mp hu)).symm (mem_begun.mp hv)
  · obtain ⟨hnodup, hmem⟩ := hs.jobs hm
    by_cases hl : ∃ j u, l = .work j u
    · obtain ⟨j, u, rfl⟩ := hl
      have hjobs := (work_step h).2.2.1
      simp only [begin_work, hm] at hjobs
      rw [hjobs]
      refine ⟨nodup_insertNew hnodup, fun t => ?_⟩
      rw [mem_keys_insertNew, hmem]
      simp only [List.mem_append, List.mem_singleton, job, Label.work.injEq, exists_or]
      exact or_congr_right ⟨fun h => ⟨j, rfl, h⟩, fun h => h.elim fun _ h => h.2⟩
    · push Not at hl
      rw [(idle_step h hl).1]
      refine ⟨hnodup, fun t => ?_⟩
      rw [hmem]
      simp [fun i => (hl i t).symm]
  · by_cases hl : ∃ j u, l = .work j u
    · obtain ⟨j, u, rfl⟩ := hl
      have hgoverns := (work_step h).2.2.2
      simp only [begin_work, hm] at hgoverns
      rw [hgoverns, hs.governs hm, begun_append]
      simp [begun]
    · push Not at hl
      rw [(idle_step h hl).2, hs.governs hm, begun_append]
      cases l <;> simp_all [begun]

/-- What a run's labels say holds of the state the run leads to. -/
theorem traced_run {ls : List Label} (h : run (step w default_k) State.init ls = some s) :
    Traced w ls s := by
  refine run_induction (P := Traced w) ⟨?_, ?_, ?_, ?_, ?_, ?_, ?_⟩ (fun _ _ _ _ _ ht hl => ht.step hl) h
  all_goals simp [State.init, begun]

/-- No two requests begin their work, but under one trace on the queue. -/
def Alone (w : Write) (ls : List Label) : Prop :=
  ∀ i j t u, .work i t ∈ ls → .work j u ∈ ls → i ≠ j → ¬ (w.body.mode = .async → t ≠ u)

/-- A request that looks up after the other's record does not begin its work. -/
theorem Traced.inTurn_iff {ls : List Label} (ht : Traced w ls s) : InTurn w ls ↔ Alone w ls := by
  constructor
  · intro h i j t u hi hj hne hother
    rcases h i j t u hne hi hj hother with hbefore | hbefore
    · exact ht.apart i j u hbefore hj
    · exact ht.apart j i t hbefore hi
  · exact fun h i j t u hne hi hj hother => absurd hother (h i j t u hi hj hne)

theorem length_le_one_iff {α : Type*} [DecidableEq α] {xs : List α} (h : xs.Nodup) :
    xs.length ≤ 1 ↔ ∀ a ∈ xs, ∀ b ∈ xs, a = b := by
  rw [← List.toFinset_card_of_nodup h, Finset.card_le_one]
  simp only [List.mem_toFinset]

/-- The traces of a run are those its requests began their work under. -/
theorem Traced.governed_iff {ls : List Label} (ht : Traced w ls s) (hs : Sound w s) :
    GovernedOnce s ↔ Alone w ls := by
  rw [hs.governedOnce]
  have hmode := hs.mode
  have hsame : ∀ {i t u}, .work i t ∈ ls → .work i u ∈ ls → t = u := by
    intro i t u ht' hu'
    exact congrArg Prod.snd
      (List.inj_on_of_nodup_map ht.once (mem_begun.mpr ht') (mem_begun.mpr hu') rfl)
  cases hm : w.body.mode with
  | async =>
      obtain ⟨hnodup, hmem⟩ := ht.jobs hm
      simp only [hm] at hmode
      simp only [State.traces, hmode, List.append_nil, length_le_one_iff hnodup, hmem, Alone, hm,
        forall_const, not_not]
      constructor
      · exact fun h i j t u hi hj _ => h t ⟨i, hi⟩ u ⟨j, hj⟩
      · rintro h t ⟨i, hi⟩ u ⟨j, hj⟩
        rcases eq_or_ne i j with rfl | hne
        · exact hsame hi hj
        · exact h i j t u hi hj hne
  | strict =>
      simp only [hm] at hmode
      simp only [State.traces, hmode, List.map_nil, List.nil_append, ht.governs hm, List.length_map,
        length_le_one_iff (List.Nodup.of_map _ ht.once), Alone, hm, reduceCtorEq, false_imp_iff,
        not_true_eq_false, imp_false]
      constructor
      · exact fun h i j t u hi hj hne =>
          hne (congrArg Prod.fst (h _ (mem_begun.mpr hi) _ (mem_begun.mpr hj)))
      · rintro h ⟨i, t⟩ hi ⟨j, u⟩ hj
        obtain rfl : i = j := not_not.mp (h i j t u (mem_begun.mp hi) (mem_begun.mp hj))
        rw [hsame (mem_begun.mp hi) (mem_begun.mp hj)]

/-- CORRECT: in every run of requests that repeat one write, with crashes and failures at any point, the
    write is governed once and answered under one trace in all states exactly where, of any two requests
    that begin their work, one was recorded before the other looked up. -/
theorem governed_once_iff (w : Write) (default_k : ℕ) (ls : List Label) (s : State)
    (h : run (step w default_k) State.init ls = some s) :
    Always (step w default_k) GovernedOnce State.init ls ↔ InTurn w ls := by
  have hsound : ∀ {pre t}, run (step w default_k) State.init pre = some t → Sound w t :=
    fun hrun => inv_run (fun _ _ _ => step_sound) hrun sound_init
  rw [(traced_run h).inTurn_iff]
  constructor
  · exact fun hall => ((traced_run h).governed_iff (hsound h)).mp (hall.last h)
  · intro halone
    refine always_iff_prefix.mpr fun pre post t heq hrun =>
      ((traced_run hrun).governed_iff (hsound hrun)).mpr fun i j t u hi hj => ?_
    exact halone i j t u (heq ▸ List.mem_append_left _ hi) (heq ▸ List.mem_append_left _ hj)

/-! ### Two repeats that overlap -/

/-- One patient's language, sent for the queue under the key `retry-1`. -/
def language : Write where
  tenant_id := "clinic"
  idempotency_key := "retry-1"
  raw := [123, 125]
  body := ⟨"patient:1", [], .async, .VERIFIED_USER⟩
  received := by decide

/-- The client repeats its write once the first attempt is recorded, and is answered from the record. -/
def in_turn : List Label :=
  [.arrive, .get 0, .work 0 "tr_000000000001", .finish 0 ⟨0, 0, 0, 0, 0⟩, .put 0, .arrive, .get 1]

theorem in_turn_governed_once : ∃ s, run (step language 5) State.init in_turn = some s ∧
    (Always (step language 5) GovernedOnce State.init in_turn ↔ InTurn language in_turn) ∧
    InTurn language in_turn ∧ s.answers.length = 2 := by
  have hrun : (run (step language 5) State.init in_turn).isSome := by decide +kernel
  obtain ⟨s, hs⟩ := Option.isSome_iff_exists.mp hrun
  have hanswers : (run (step language 5) State.init in_turn).map (fun s => s.answers.length) = some 2 := by
    decide +kernel
  have hiff := governed_once_iff language 5 in_turn s hs
  refine ⟨s, hs, hiff, hiff.mp (by decide +kernel), by simpa [hs] using hanswers⟩

/-- The client repeats its write before the first attempt has recorded its answer. -/
def overlapping : List Label :=
  [.arrive, .get 0, .arrive, .get 1, .work 0 "tr_000000000001", .work 1 "tr_000000000002"]

/-- Both attempts are put on the queue. -/
theorem overlap_governs_twice : ¬ ∀ (w : Write) (default_k : ℕ) (ls : List Label),
    Always (step w default_k) GovernedOnce State.init ls := by
  intro h
  exact absurd (h language 5 overlapping) (by decide +kernel)

/-- So are both where the first is lost between its work and its record. -/
example : ¬ Always (step language 5) GovernedOnce State.init
    [.arrive, .get 0, .work 0 "tr_000000000001", .crash 0, .arrive, .get 1, .work 1 "tr_000000000002"] := by
  decide +kernel

end GuardMem.Gateway
