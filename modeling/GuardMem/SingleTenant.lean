import GuardMem.Isolation

/-! What the in-process graph holds when several tenants write to it.

    The guard reads the tenant of the subject's node alone, so a second tenant is turned away only where
    it writes about a subject the first already has. CORRECT: a sequence of upserts keeps the graph to
    one tenant exactly where it writes about no other (`single_tenant_iff`); a pharmacy's own subject is
    let in, and counts towards the degree of the clinic's patient (`pharmacy_let_in`). -/

namespace GuardMem.NetworkX

variable (dumps : Json → String)

/-- One call; a refused one leaves the graph as it is. -/
def deliver (g : MultiDiGraph) (a : StoredAssertion) : MultiDiGraph :=
  match upsert_assertion dumps a g with
  | .ok g' => g'
  | .error _ => g

/-- The graph after a sequence of calls. -/
def delivered (calls : List StoredAssertion) : MultiDiGraph := calls.foldl (deliver dumps) ⟨[], []⟩

/-- The calls that succeeded. -/
def accepted : List StoredAssertion → MultiDiGraph → List StoredAssertion
  | [], _ => []
  | a :: calls, g =>
      match upsert_assertion dumps a g with
      | .ok g' => a :: accepted calls g'
      | .error _ => accepted calls g

/-- The calls for one tenant. -/
def own (tenant : TenantId) (calls : List StoredAssertion) : List StoredAssertion :=
  calls.filter fun a => a.tenant_id == tenant

/-- Once a call for a tenant has succeeded, every call for another raises and changes nothing, and the
    reads are those of a graph that one tenant alone has written. -/
structure OneTenant (calls : List StoredAssertion) : Prop where
  rejects : ∀ before b rest, calls = before ++ b :: rest →
    (∃ a ∈ accepted dumps before ⟨[], []⟩, a.tenant_id ≠ b.tenant_id) →
    (∃ message, upsert_assertion dumps b (delivered dumps before) = .error (.ValidationRejected message)) ∧
      delivered dumps (before ++ [b]) = delivered dumps before
  unmixed : ∀ before rest, calls = before ++ rest → ∃ tenant, ∀ entity hops,
    degree entity (delivered dumps before) = degree entity (delivered dumps (own tenant before)) ∧
    neighbors entity hops (delivered dumps before) =
      neighbors entity hops (delivered dumps (own tenant before))

/-- A call for another tenant than the first call's is about a subject the first call's tenant has
    written. -/
def OnHeldSubjects (calls : List StoredAssertion) : Prop :=
  ∀ first ∈ calls.head?, ∀ before b rest, calls = before ++ b :: rest →
    b.tenant_id ≠ first.tenant_id →
      ∃ a ∈ before, a.tenant_id = first.tenant_id ∧ a.subject_id = b.subject_id

variable {dumps} {g : MultiDiGraph} {calls before rest : List StoredAssertion} {a b first : StoredAssertion}
  {tenant : TenantId}

/-! ### A sequence of calls -/

theorem delivered_concat : delivered dumps (calls ++ [b]) = deliver dumps (delivered dumps calls) b := by
  rw [delivered, List.foldl_append]
  rfl

theorem accepted_concat : accepted dumps (calls ++ [b]) g = accepted dumps calls g ++
    accepted dumps [b] (calls.foldl (deliver dumps) g) := by
  induction calls generalizing g with
  | nil => rfl
  | cons a calls ih =>
      simp only [List.cons_append, accepted, List.foldl_cons, deliver]
      cases upsert_assertion dumps a g with
      | ok g' => exact congrArg _ ih
      | error e => exact ih

/-- A refused call left nothing behind. -/
theorem foldl_accepted : (accepted dumps calls g).foldl (deliver dumps) g = calls.foldl (deliver dumps) g := by
  induction calls generalizing g with
  | nil => rfl
  | cons a calls ih =>
      rw [List.foldl_cons, accepted]
      cases h : upsert_assertion dumps a g with
      | ok g' =>
          have hg' : deliver dumps g a = g' := by rw [deliver, h]
          rw [List.foldl_cons, hg']
          exact ih
      | error e =>
          have hg : deliver dumps g a = g := by rw [deliver, h]
          rw [hg]
          exact ih

/-- The run lemma: a node is held for the tenant of the first accepted call about it. -/
theorem tenant_delivered {x : EntityId} : (delivered dumps calls).tenant x =
    ((accepted dumps calls ⟨[], []⟩).find? fun a => a.subject_id == x).map StoredAssertion.tenant_id := by
  induction calls using List.reverseRecOn with
  | nil => rfl
  | append_singleton calls b ih =>
      have hgraph : calls.foldl (deliver dumps) ⟨[], []⟩ = delivered dumps calls := rfl
      rw [accepted_concat, hgraph, delivered_concat, List.find?_append, Option.map_or, ← ih]
      cases h : upsert_assertion dumps b (delivered dumps calls) with
      | error e => simp [deliver, accepted, h]
      | ok g' =>
          have hlast : accepted dumps [b] (delivered dumps calls) = [b] := by simp [accepted, h]
          rw [deliver, h, hlast]
          obtain ⟨hheld, rfl⟩ := upsert_ok.mp h
          simp only [tenant_materialise, List.find?_cons, List.find?_nil]
          by_cases hx : x = b.subject_id
          · subst hx
            cases ht : (delivered dumps calls).tenant b.subject_id with
            | none => simp
            | some held => simp [hheld held ht]
          · have hne : (b.subject_id == x) = false := beq_false_of_ne (Ne.symm hx)
            simp [hx, hne]

/-- A call is refused exactly where its subject is held for another tenant. -/
theorem upsert_refused : (∃ message, upsert_assertion dumps a g = .error (.ValidationRejected message)) ↔
    ∃ held, g.tenant a.subject_id = some held ∧ held ≠ a.tenant_id := by
  rw [upsert_assertion]
  cases g.tenant a.subject_id with
  | none => simp
  | some held => by_cases hheld : held = a.tenant_id <;> simp [hheld]

theorem accepted_refused {message : String}
    (h : upsert_assertion dumps b (delivered dumps before) = .error (.ValidationRejected message)) :
    accepted dumps [b] (delivered dumps before) = [] ∧ delivered dumps (before ++ [b]) = delivered dumps before := by
  constructor
  · simp [accepted, h]
  · rw [delivered_concat, deliver, h]

/-! ### One tenant -/

/-- So far only one tenant's calls have succeeded, and all of them. -/
def Single (dumps : Json → String) (tenant : TenantId) (calls : List StoredAssertion) : Prop :=
  accepted dumps calls ⟨[], []⟩ = own tenant calls

theorem Single.delivered_eq (h : Single dumps tenant calls) :
    delivered dumps calls = delivered dumps (own tenant calls) := by
  rw [← show accepted dumps calls ⟨[], []⟩ = own tenant calls from h]
  exact foldl_accepted.symm

/-- Another tenant's call is refused exactly where it is about a subject the tenant has written. -/
theorem Single.refused_iff (h : Single dumps tenant before) (hb : b.tenant_id ≠ tenant) :
    (∃ message, upsert_assertion dumps b (delivered dumps before) = .error (.ValidationRejected message)) ↔
      ∃ a ∈ before, a.tenant_id = tenant ∧ a.subject_id = b.subject_id := by
  rw [upsert_refused, tenant_delivered, show accepted dumps before ⟨[], []⟩ = own tenant before from h]
  constructor
  · rintro ⟨held, hheld, -⟩
    obtain ⟨a, hfind, -⟩ := Option.map_eq_some_iff.mp hheld
    obtain ⟨ha, htenant⟩ := List.mem_filter.mp (List.mem_of_find?_eq_some hfind)
    exact ⟨a, ha, by simpa using htenant, by simpa using List.find?_some hfind⟩
  · rintro ⟨a, ha, htenant, hsubject⟩
    have hown : a ∈ own tenant before := List.mem_filter.mpr ⟨ha, by simpa using htenant⟩
    have hsome : ((own tenant before).find? fun a => a.subject_id == b.subject_id).isSome :=
      List.find?_isSome.mpr ⟨a, hown, by simpa using hsubject⟩
    obtain ⟨a', ha'⟩ := Option.isSome_iff_exists.mp hsome
    have htenant' : a'.tenant_id = tenant := by
      simpa using (List.mem_filter.mp (List.mem_of_find?_eq_some ha')).2
    exact ⟨a'.tenant_id, by rw [ha']; rfl, fun heq => hb (heq.symm.trans htenant')⟩

/-- The step lemma: it stays so where another tenant's call is refused. -/
theorem Single.concat (h : Single dumps tenant before)
    (hb : b.tenant_id ≠ tenant → ∃ message,
      upsert_assertion dumps b (delivered dumps before) = .error (.ValidationRejected message)) :
    Single dumps tenant (before ++ [b]) := by
  have hgraph : before.foldl (deliver dumps) ⟨[], []⟩ = delivered dumps before := rfl
  rw [Single, accepted_concat, hgraph, own, List.filter_append, h, own]
  refine congrArg _ ?_
  rcases eq_or_ne b.tenant_id tenant with htenant | htenant
  · -- its own calls find its own subjects
    have hok : upsert_assertion dumps b (delivered dumps before) =
        .ok (materialise dumps b (delivered dumps before)) := by
      refine upsert_ok.mpr ⟨fun held hheld => ?_, rfl⟩
      rw [tenant_delivered, h] at hheld
      obtain ⟨a, hfind, rfl⟩ := Option.map_eq_some_iff.mp hheld
      have ha : a.tenant_id = tenant := by
        simpa using (List.mem_filter.mp (List.mem_of_find?_eq_some hfind)).2
      exact ha.trans htenant.symm
    simp [accepted, hok, htenant]
  · obtain ⟨message, hmessage⟩ := hb htenant
    rw [(accepted_refused hmessage).1]
    simp [htenant]

/-- The run lemma: where every other tenant's call is refused, all that succeeded are the first tenant's. -/
theorem single_before (hcalls : calls = before ++ rest)
    (hb : ∀ before b rest, calls = before ++ b :: rest → Single dumps tenant before → b.tenant_id ≠ tenant →
      ∃ message, upsert_assertion dumps b (delivered dumps before) = .error (.ValidationRejected message)) :
    Single dumps tenant before := by
  induction before using List.reverseRecOn generalizing rest with
  | nil => rfl
  | append_singleton before b ih =>
      rw [List.append_assoc, List.singleton_append] at hcalls
      have hbefore := ih hcalls
      exact hbefore.concat (hb before b rest hcalls hbefore)

/-- CORRECT: a sequence of calls keeps the graph to one tenant exactly where every call for another
    tenant than the first call's is about a subject that the first call's tenant has written. -/
theorem single_tenant_iff (dumps : Json → String) (calls : List StoredAssertion) :
    OneTenant dumps calls ↔ OnHeldSubjects calls := by
  rcases calls with _ | ⟨first, calls⟩
  · refine iff_of_true ⟨fun before b rest h => by simp at h, fun before rest h => ⟨"", fun _ _ => ?_⟩⟩
      fun first h => by simp at h
    obtain ⟨rfl, -⟩ := List.append_eq_nil_iff.mp h.symm
    exact ⟨rfl, rfl⟩
  constructor
  · rintro ⟨hrejects, -⟩ first' hfirst before b rest hcalls hb
    obtain rfl : first = first' := by simpa using hfirst
    -- the first call succeeds, so that every call for another tenant is refused
    have hrefused : ∀ before b rest, first :: calls = before ++ b :: rest →
        Single dumps first.tenant_id before → b.tenant_id ≠ first.tenant_id →
        ∃ message, upsert_assertion dumps b (delivered dumps before) = .error (.ValidationRejected message) := by
      intro before b rest hcalls hsingle hb
      rcases before with _ | ⟨first', before⟩
      · simp only [List.nil_append, List.cons.injEq] at hcalls
        exact absurd (hcalls.1 ▸ rfl) hb
      · obtain ⟨rfl, -⟩ := List.cons.inj hcalls
        refine (hrejects _ b rest hcalls ⟨first, ?_, Ne.symm hb⟩).1
        rw [show accepted dumps (first :: before) ⟨[], []⟩ = _ from hsingle]
        simp [own]
    have hsingle := single_before hcalls hrefused
    exact (hsingle.refused_iff hb).mp (hrefused before b rest hcalls hsingle hb)
  · intro hheld
    have hsingle : ∀ before rest, first :: calls = before ++ rest → Single dumps first.tenant_id before :=
      fun before rest hcalls => single_before hcalls fun before b rest hcalls hsingle hb =>
        (hsingle.refused_iff hb).mpr (hheld first rfl before b rest hcalls hb)
    refine ⟨fun before b rest hcalls hother => ?_, fun before rest hcalls => ?_⟩
    · obtain ⟨a, ha, hne⟩ := hother
      have hbefore := hsingle before (b :: rest) hcalls
      rw [show accepted dumps before ⟨[], []⟩ = _ from hbefore] at ha
      have htenant : a.tenant_id = first.tenant_id := by simpa using (List.mem_filter.mp ha).2
      have hb : b.tenant_id ≠ first.tenant_id := fun h => hne (htenant.trans h.symm)
      obtain ⟨message, hmessage⟩ :=
        (hbefore.refused_iff hb).mpr (hheld first rfl before b rest hcalls hb)
      exact ⟨⟨message, hmessage⟩, (accepted_refused hmessage).2⟩
    · refine ⟨first.tenant_id, fun entity hops => ?_⟩
      rw [← (hsingle before rest hcalls).delivered_eq]
      exact ⟨rfl, rfl⟩

/-- The clinic's patient has one edge; then the pharmacy, whose dispensary is new to the graph, writes the
    patient down as an object. -/
theorem pharmacy_let_in : ¬ ∀ (dumps : Json → String) (calls : List StoredAssertion), OneTenant dumps calls := by
  intro h
  have hrejects := (h (fun _ => "") [Neo4j.allergy.1, Neo4j.dispensed.1]).rejects [Neo4j.allergy.1]
    Neo4j.dispensed.1 [] rfl ⟨Neo4j.allergy.1, by decide +kernel, by decide⟩
  have hdegree : degree Neo4j.patient (delivered (fun _ => "") [Neo4j.allergy.1, Neo4j.dispensed.1]) ≠
      degree Neo4j.patient (delivered (fun _ => "") [Neo4j.allergy.1]) := by
    decide +kernel
  exact hdegree (congrArg (degree Neo4j.patient) hrejects.2)

end GuardMem.NetworkX
