import GuardMem.Lib.Transition
import GuardMem.Memory.Applier
import GuardMem.Memory.Relay

/-! The write path as one system: workers that score and apply proposals, direct upserts, relay
    passes, over one database and one graph.

    A step is one transaction or one call outside it, so a run is an interleaving of those. Every
    choice that is not the program's own is in the label: which proposal arrives and what extraction
    made of it, what a model answered, the clock, which rows a claim got, how a graph call went, which
    process died. A redelivery is a second `deliver` of one trace. -/

namespace GuardMem

/-- One admitted candidate of a delivery. A scored one remembers, for the statements only, which rows
    of its key were readable then. -/
inductive Slot where
  | waiting (c : MemoryCandidate)
  | scored (g : GovernedCandidate) (seen : List AssertionId)
  | failed

/-- One evaluation of one proposal: its candidates in order. -/
structure Delivery where
  tenant : TenantId
  trace : TraceId
  slots : List Slot

/-- Where a relay pass stands with the event it is dispatching. -/
inductive Stage where
  | idle
  | loaded (e : PendingEvent) (a : StoredAssertion)
  | written (e : PendingEvent)

/-- A `run_once` under way: the events it has yet to start, and the one in hand. -/
structure Pass where
  todo : List PendingEvent
  stage : Stage

/-- A committed apply, for the statements only. -/
structure LogEntry where
  tenant : TenantId
  trace : TraceId
  governed : GovernedCandidate
  outcome : Applied

structure World (G : Type) where
  db : Db
  graph : G
  deliveries : List Delivery
  passes : List Pass
  log : List LogEntry

/-- What a run is over: the composition, the relay's settings and the graph backend. -/
structure Env (G : Type) where
  deps : Deps
  relay : RelayConfig
  store : GraphStore G

variable {G : Type}

def Env.init (env : Env G) : World G := ⟨.empty, env.store.empty, [], [], []⟩

inductive Label where
  /-- A proposal is evaluated: extraction and the schema gate left these candidates. -/
  | deliver (tenant : TenantId) (ns : Namespace) (trace : TraceId) (cands : List MemoryCandidate)
  /-- One candidate is retrieved for, judged, scored and decided. -/
  | score (d i : ℕ) (reply : ScoreReply)
  /-- One candidate's scoring raised. -/
  | scoreFails (d i : ℕ)
  /-- The next decision of a proposal is applied. -/
  | apply (d : ℕ) (clock : ApplyClock)
  /-- That apply lost its connection and rolled back. -/
  | applyFails (d : ℕ)
  /-- The worker died. -/
  | abandon (d : ℕ)
  /-- A batch is written outside the governed path. -/
  | upsert (tenant : TenantId) (now : Time) (batch : List StoredAssertion)
  /-- A pass claims a batch. -/
  | claim (locked batch : List String)
  /-- A pass loads its next event. -/
  | load (p : ℕ)
  /-- A pass writes the loaded assertion to the graph. -/
  | write (p : ℕ) (reply : GraphReply)
  /-- A pass completes the written event. -/
  | complete (p : ℕ) (t : Time)
  /-- A pass died. -/
  | crash (p : ℕ)

/-- The label is one of the governed path's, not a direct upsert. -/
def Label.governed : Label → Bool
  | .upsert .. => false
  | _ => true

/-- What extraction stamps on a proposal's candidates: the caller's tenant, namespace and trace, ids
    of their own, and no dates. -/
def extracted (tenant : TenantId) (ns : Namespace) (trace : TraceId) (cands : List MemoryCandidate) :
    Prop :=
  (cands.map MemoryCandidate.candidate_id).Nodup ∧
    ∀ c ∈ cands, c.tenant_id = tenant ∧ c.namespace = ns ∧ c.trace_id = trace ∧
      c.valid_from = none ∧ c.valid_to = none

instance (tenant : TenantId) (ns : Namespace) (trace : TraceId) (cands : List MemoryCandidate) :
    Decidable (extracted tenant ns trace cands) := inferInstanceAs (Decidable (_ ∧ _))

def Slot.isWaiting : Slot → Bool
  | .waiting _ => true
  | _ => false

/-- What `apply_all` takes next: the first scored candidate left, once none is waiting. -/
def next_apply : List Slot → Option (GovernedCandidate × List AssertionId × List Slot)
  | [] => none
  | .failed :: rest => next_apply rest
  | .waiting _ :: _ => none
  | .scored g seen :: rest => if rest.any Slot.isWaiting then none else some (g, seen, rest)

/-- The ids `search` could return for this key now. -/
def seen_ids (tenant : TenantId) (ns : Namespace) (sid : EntityId) (predicate : String) (db : Db) :
    List AssertionId :=
  (db.assertions.filter (readable tenant ns sid predicate)).map AssertionRow.id

/-- A scored candidate's slot. -/
def scored_slot (deps : Deps) (tenant : TenantId) (c : MemoryCandidate) (reply : ScoreReply) (db : Db) :
    Slot :=
  match score_candidate deps tenant c reply db with
  | .ok g => .scored g (seen_ids tenant c.namespace g.subject_id c.predicate db)
  | .error _ => .failed

def World.setDelivery (w : World G) (d : ℕ) (x : Delivery) : World G :=
  { w with deliveries := w.deliveries.set d x }

def World.setPass (w : World G) (p : ℕ) (x : Pass) : World G := { w with passes := w.passes.set p x }

variable (env : Env G)

/-- A pass that has nothing left to do. -/
def Pass.done : Pass := ⟨[], .idle⟩

/-- The pass a claim starts; a malformed payload ends it at once. -/
def Pass.of (events : Except Exc (List PendingEvent)) : Pass :=
  match events with
  | .ok events => ⟨events, .idle⟩
  | .error _ => .done

/-- Applying the next decision of delivery `d`. -/
def step_apply (w : World G) (d : ℕ) (clock : ApplyClock) : Option (World G) := do
  let x ← w.deliveries[d]?
  let (g, _, rest) ← next_apply x.slots
  let w := w.setDelivery d { x with slots := rest }
  match apply env.deps x.tenant x.trace clock g w.db with
  | .ok (outcome, db) =>
      some { w with db := db, log := w.log ++ [⟨x.tenant, x.trace, g, outcome⟩] }
  | .error _ => some w

/-- Loading the next event of pass `p`. -/
def step_load (w : World G) (p : ℕ) : Option (World G) := do
  let x ← w.passes[p]?
  match x.stage, x.todo with
  | .idle, e :: rest =>
      match load e w.db with
      | .ok (some a) => some (w.setPass p ⟨rest, .loaded e a⟩)
      | .ok none => some (w.setPass p ⟨rest, .idle⟩)
      | .error _ => some (w.setPass p .done)
  | _, _ => none

/-- Writing the loaded assertion of pass `p` to the graph. -/
def step_write (w : World G) (p : ℕ) (reply : GraphReply) : Option (World G) := do
  let x ← w.passes[p]?
  match x.stage with
  | .loaded e a =>
      match graph_write env.store reply a w.graph with
      | (.ok (), g) => some { w.setPass p ⟨x.todo, .written e⟩ with graph := g }
      | (.error .StoreUnavailable, g) => some { w.setPass p ⟨x.todo, .idle⟩ with graph := g }
      | (.error _, g) => some { w.setPass p .done with graph := g }
  | _ => none

/-- Completing the written event of pass `p`. -/
def step_complete (w : World G) (p : ℕ) (t : Time) : Option (World G) := do
  let x ← w.passes[p]?
  match x.stage with
  | .written e => some { w.setPass p ⟨x.todo, .idle⟩ with db := complete e t w.db }
  | _ => none

/-- One step; `none` when the label is not enabled. -/
def step (w : World G) : Label → Option (World G)
  | .deliver tenant ns trace cands =>
      if extracted tenant ns trace cands then
        some { w with deliveries := w.deliveries ++ [⟨tenant, trace, cands.map .waiting⟩] }
      else none
  | .score d i reply => do
      let x ← w.deliveries[d]?
      match x.slots[i]? with
      | some (.waiting c) =>
          some (w.setDelivery d
            { x with slots := x.slots.set i (scored_slot env.deps x.tenant c reply w.db) })
      | _ => none
  | .scoreFails d i => do
      let x ← w.deliveries[d]?
      match x.slots[i]? with
      | some (.waiting _) => some (w.setDelivery d { x with slots := x.slots.set i .failed })
      | _ => none
  | .apply d clock => step_apply env w d clock
  | .applyFails d => do
      let x ← w.deliveries[d]?
      let (_, _, rest) ← next_apply x.slots
      some (w.setDelivery d { x with slots := rest })
  | .abandon d => do
      let x ← w.deliveries[d]?
      some (w.setDelivery d { x with slots := [] })
  | .upsert tenant now batch =>
      match upsert env.deps tenant now batch w.db with
      | .ok db => some { w with db := db }
      | .error _ => some w
  | .claim locked batch =>
      if IsClaim env.relay locked batch w.db then
        some { w with
          db := CLAIM_OUTBOX batch w.db
          passes := w.passes ++ [.of (claimed_events batch w.db)] }
      else none
  | .load p => step_load w p
  | .write p reply => step_write env w p reply
  | .complete p t => step_complete w p t
  | .crash p => do
      let _ ← w.passes[p]?
      some (w.setPass p .done)

/-- A writing apply about to commit: whose it is, when, what it writes and what its scoring saw. -/
structure Landing where
  tenant : TenantId
  trace : TraceId
  clock : ApplyClock
  governed : GovernedCandidate
  seen : List AssertionId

/-- The writing apply this label commits in this state, if it is one. -/
def landing (w : World G) : Label → Option Landing
  | .apply d clock => do
      let x ← w.deliveries[d]?
      let (g, seen, _) ← next_apply x.slots
      if Lands env.deps x.tenant clock g w.db then some ⟨x.tenant, x.trace, clock, g, seen⟩
      else none
  | _ => none

/-- The system without direct upserts: every row comes from a governed candidate. -/
def step_governed (w : World G) (l : Label) : Option (World G) :=
  if l.governed then step env w l else none

end GuardMem
