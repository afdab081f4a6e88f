import Mathlib.Data.Fintype.EquivFin
import GuardMem.Lib.Noninterference
import GuardMem.Memory.Neo4j

/-! Whether one tenant's writes can show in what another reads of its entities in the durable graph.

    A read is scoped by the tenant of the node it starts at, and a node created as an object has none.
    So an entity is isolated exactly where its own tenant wrote about it before anyone wrote it down as
    an object (`isolated_iff`); the key of a patient that another tenant named first is read unscoped
    (`named_first`). -/

namespace GuardMem.Neo4j

open Lib.Table Lib.Noninterference

variable (dumps : Json → String) (owner : EntityId → TenantId)

/-- One `upsert_assertion` call. Subject ids are tenant-unique: each has one owner. -/
abbrev Write := { a : StoredAssertion // a.tenant_id = owner a.subject_id }

variable {owner}

/-- One call; a refused one leaves the graph as it is. -/
def deliver (g : Graph) (a : Write owner) : Graph :=
  match upsert_assertion dumps a g with
  | .ok g' => g'
  | .error _ => g

/-- The graph after a sequence of calls. -/
def after (ls : List (Write owner)) : Graph := ls.foldl (deliver dumps) Graph.empty

/-- The calls that were accepted. -/
def accepted : List (Write owner) → Graph → List (Write owner)
  | [], _ => []
  | a :: ls, g =>
      match upsert_assertion dumps a g with
      | .ok g' => a :: accepted ls g'
      | .error _ => accepted ls g

/-- Both reads of an entity. -/
def reads (entity : EntityId) (hops : ℕ) (g : Graph) : ℕ × Except Exc (List Edge) :=
  (degree entity g, neighbors entity hops g)

/-- The calls of one tenant. -/
def mine (tenant : TenantId) (a : Write owner) : Bool := a.1.tenant_id == tenant

/-- The first call to name the entity has it as its subject. -/
def FirstAsSubject (entity : EntityId) (ls : List (Write owner)) : Prop :=
  ∀ a, ls.find? (fun a => decide (Mentions entity a.1)) = some a → a.1.subject_id = entity

/-! ### Scoped reads -/

/-- The relationships held for one tenant. -/
def own (tenant : TenantId) (g : Graph) : List Rel := g.rels.filter fun r => r.tenant_id == tenant

/-- Every node and every relationship is held for the owner of its subject, or for no one. -/
structure Owned (owner : EntityId → TenantId) (g : Graph) : Prop where
  entities : ∀ key t, g.entity key = some (some t) → t = owner key
  rels : ∀ r ∈ g.rels, r.tenant_id = owner r.source

variable {dumps} {g g' : Graph} {entity : EntityId} {tenant : TenantId} {ls ls₁ ls₂ : List (Write owner)}

theorem Owned.empty : Owned owner Graph.empty := ⟨by simp [Graph.entity, Graph.empty], by simp [Graph.empty]⟩

/-- With tenant-unique subjects no call is refused. -/
theorem Owned.upsert_ok (h : Owned owner g) (a : Write owner) :
    upsert_assertion dumps a g = .ok (upsert dumps a g) := by
  refine Neo4j.upsert_ok.mpr ⟨fun held hheld => ?_, rfl⟩
  rw [tenant_of, Option.join_eq_some_iff] at hheld
  rw [a.2]
  exact h.entities _ held hheld

theorem Owned.deliver_eq (h : Owned owner g) (a : Write owner) :
    deliver dumps g a = upsert dumps a g := by
  rw [deliver, h.upsert_ok]

/-- The step lemma. -/
theorem Owned.deliver (h : Owned owner g) (a : Write owner) : Owned owner (deliver dumps g a) := by
  rw [h.deliver_eq]
  constructor
  · intro key t ht
    rw [entity_upsert] at ht
    cases hold : g.entity key with
    | some held =>
        rw [hold] at ht
        exact h.entities key t (hold.trans ht)
    | none =>
        rw [hold] at ht
        by_cases hs : a.1.subject_id = key
        · have heq : a.1.tenant_id = t := by simpa [hs, Mentions] using ht
          rw [← heq, a.2, hs]
        · simp [hs, Mentions] at ht
  · intro r hr
    rw [rels_upsert] at hr
    rcases mem_merge.mp hr with rfl | ⟨hr, -⟩
    · exact a.2
    · exact h.rels r hr

theorem owned_after : Owned owner (after dumps ls) :=
  inv_foldl (I := Owned owner) (fun _ a h => Owned.deliver h a) Owned.empty

theorem accepted_eq (h : Owned owner g) : accepted dumps ls g = ls := by
  induction ls generalizing g with
  | nil => rfl
  | cons a ls ih =>
      have hnext : Owned owner (Neo4j.deliver dumps g a) := h.deliver a
      rw [h.deliver_eq] at hnext
      rw [accepted, h.upsert_ok]
      exact congrArg _ (ih hnext)

/-- The run lemma for nodes: a node has what the first call to name it gave it. -/
theorem entity_foldl (h : Owned owner g) : (ls.foldl (deliver dumps) g).entity entity =
    (g.entity entity <|> (ls.find? fun a => decide (Mentions entity a.1)).map fun a =>
      if a.1.subject_id = entity then some a.1.tenant_id else none) := by
  induction ls generalizing g with
  | nil => simp
  | cons a ls ih =>
      rw [List.foldl_cons, ih (h.deliver a), h.deliver_eq, entity_upsert, List.find?_cons]
      cases g.entity entity with
      | some held => rfl
      | none => by_cases hm : Mentions entity a.1 <;> simp [hm]

/-- After its own tenant wrote about it, an entity is held for that tenant or for no one, as its first
    mention has it. -/
theorem entity_after (hsub : ∃ a ∈ ls, a.1.subject_id = entity) :
    (FirstAsSubject entity ls → (after dumps ls).entity entity = some (some (owner entity))) ∧
      (¬ FirstAsSubject entity ls → (after dumps ls).entity entity = some none) := by
  obtain ⟨a, ha, hs⟩ := hsub
  obtain ⟨b, hb⟩ : ∃ b, ls.find? (fun a => decide (Mentions entity a.1)) = some b := by
    refine Option.isSome_iff_exists.mp (List.find?_isSome.mpr ⟨a, ha, ?_⟩)
    simp [Mentions, hs]
  have hentity : (after dumps ls).entity entity = _ := entity_foldl Owned.empty
  rw [hb] at hentity
  constructor
  · intro hfirst
    have hbs := hfirst b hb
    refine hentity.trans ?_
    simp [Graph.entity, Graph.empty, hbs, b.2]
  · intro hnot
    have hbs : b.1.subject_id ≠ entity := fun heq => hnot fun c hc => by
      obtain rfl := Option.some.inj (hb.symm.trans hc)
      exact heq
    refine hentity.trans ?_
    simp [Graph.entity, Graph.empty, hbs]

/-- A call of the tenant's own takes its relationships on by themselves. -/
theorem own_mine (h : Owned owner g) (a : Write owner) (hm : mine tenant a = true) :
    own tenant (deliver dumps g a) = merge Rel.ends (rel dumps a) (own tenant g) := by
  have ht : a.1.tenant_id = tenant := by simpa [mine] using hm
  rw [h.deliver_eq, own, rels_upsert, filter_merge, if_pos (by simpa [rel] using ht), own]
  intro r hr hends
  have hsource : r.source = a.1.subject_id := congrArg Prod.fst hends
  rw [h.rels r hr, hsource, ← a.2]
  rfl

/-- Any other call leaves them. -/
theorem own_other (h : Owned owner g) (a : Write owner) (hm : mine tenant a = false) :
    own tenant (deliver dumps g a) = own tenant g := by
  have ht : a.1.tenant_id ≠ tenant := by simpa [mine] using hm
  rw [h.deliver_eq, own, rels_upsert, filter_merge, if_neg (by simpa [rel] using ht), own]
  intro r hr hends
  have hsource : r.source = a.1.subject_id := congrArg Prod.fst hends
  rw [h.rels r hr, hsource, ← a.2]
  rfl

/-- CORRECT: a tenant's relationships come of its own calls alone. -/
theorem own_after (hsame : Same (mine tenant) ls₁ ls₂) :
    own tenant (after dumps ls₁) = own tenant (after dumps ls₂) :=
  @view_eq_of_same _ _ _ (deliver dumps) (mine tenant) (Owned owner) (own tenant)
    (fun held a => merge Rel.ends (rel dumps a.1) held) (fun _ a h => Owned.deliver h a)
    (fun _ a h => own_mine h a) (fun _ a h => own_other h a) _ _ _ hsame Owned.empty

/-- A scoped read sees its tenant's relationships and nothing else. -/
theorem reads_scoped {hops : ℕ} (h : g.entity entity = some (some tenant))
    (h' : g'.entity entity = some (some tenant)) (hown : own tenant g = own tenant g') :
    reads entity hops g = reads entity hops g' := by
  have hhop : ∀ {g : Graph}, HOP (some tenant) g = fun frontier =>
      (own tenant g).filter fun r => frontier.contains r.source && r.valid_to.isNone := by
    intro g
    funext frontier
    rw [HOP, own, List.filter_filter]
    refine List.filter_congr fun r _ => ?_
    rw [Option.all_some, BEq.comm, Bool.and_comm]
  have hdegree : ∀ {g : Graph}, g.entity entity = some (some tenant) → degree entity g =
      (own tenant g).countP fun r => (r.source == entity ||
        (r.object_is_entity && r.object_key == entity)) && r.valid_to.isNone := by
    intro g hg
    rw [degree, hg, own, List.countP_filter]
    refine List.countP_congr fun r _ => ?_
    rw [Option.all_some, @BEq.comm _ _ _ tenant]
  refine Prod.ext ?_ ?_
  · simp only [reads, hdegree h, hdegree h', hown]
  · simp only [reads, neighbors, tenant_of, h, h', Option.join_some, hhop, hown]

/-! ### Unscoped reads -/

/-- A node held for no one counts whatever any tenant writes about it. -/
theorem degree_unscoped (dumps : Json → String) (hg : Owned owner g)
    (hnone : g.entity entity = some none) {u : EntityId} (hu : owner u ≠ owner entity) (a : StoredAssertion) :
    ∃ p : Write owner, mine (owner entity) p = false ∧
      degree entity (deliver dumps g p) = degree entity g + 1 := by
  obtain ⟨id, hid⟩ := Infinite.exists_notMem_finset (g.rels.map Rel.assertion_id).toFinset
  rw [List.mem_toFinset] at hid
  let p : Write owner := ⟨{ a with
    assertion_id := id, tenant_id := owner u, subject_id := u, object := .str entity, valid_to := none
    interval_coherent := by simp }, rfl⟩
  have hfresh : Rel.ends (rel dumps p.1) ∉ g.rels.map Rel.ends := by
    intro hmem
    obtain ⟨r, hr, hends⟩ := List.mem_map.mp hmem
    exact hid (List.mem_map.mpr ⟨r, hr, congrArg (fun k => k.2.2.2) hends⟩)
  have hentity : (upsert dumps p.1 g).entity entity = some none := by rw [entity_upsert, hnone]; rfl
  refine ⟨p, by simpa [mine, p] using hu, ?_⟩
  rw [hg.deliver_eq]
  simp only [degree, hentity, hnone, rels_upsert, merge_new hfresh, List.countP_append]
  simp [p, rel, NetworkX.object_key]

/-- CORRECT: an entity is isolated, whatever is written next, exactly where its tenant wrote about it
    before anyone named it as an object, or where there is no other tenant. -/
theorem isolated_iff (dumps : Json → String) (owner : EntityId → TenantId) (entity : EntityId)
    (ls₁ ls₂ : List (Write owner)) (hsame : Same (mine (owner entity)) ls₁ ls₂)
    (hsub : ∃ a ∈ accepted dumps ls₁ Graph.empty, a.1.subject_id = entity) :
    (∀ xs ys, Same (mine (owner entity)) xs ys → ∀ hops,
      reads entity hops (after dumps (ls₁ ++ xs)) = reads entity hops (after dumps (ls₂ ++ ys))) ↔
    (FirstAsSubject entity ls₁ ∧ FirstAsSubject entity ls₂) ∨ ∀ u, owner u = owner entity := by
  rw [accepted_eq Owned.empty] at hsub
  obtain ⟨a, ha₁, hs⟩ := hsub
  have hmine : mine (owner entity) a = true := by simp [mine, a.2, hs]
  have ha₂ := (hsame.mem hmine).mp ha₁
  have hone : ∀ ls : List (Write owner), ∀ p, after dumps (ls ++ [p]) = deliver dumps (after dumps ls) p := by
    intro ls p
    rw [after, List.foldl_append]
    rfl
  constructor
  · intro h
    by_contra hnot
    rw [not_or, not_forall] at hnot
    obtain ⟨hfirst, u, hu⟩ := hnot
    -- Where the node is held for no one, one more call by the owner of `u` shows.
    have hbefore := congrArg Prod.fst (h [] [] rfl 0)
    rw [List.append_nil, List.append_nil] at hbefore
    rcases not_and_or.mp hfirst with hfirst | hfirst
    · have hnone : (after dumps ls₁).entity entity = some none :=
        (entity_after ⟨a, ha₁, hs⟩).2 hfirst
      obtain ⟨p, hp, hdegree⟩ := degree_unscoped dumps owned_after hnone hu a.1
      have hafter := congrArg Prod.fst (h [p] [] (same_nil (by simpa using hp)) 0)
      rw [List.append_nil, hone] at hafter
      simp only [reads] at hbefore hafter
      omega
    · have hnone : (after dumps ls₂).entity entity = some none :=
        (entity_after ⟨a, ha₂, hs⟩).2 hfirst
      obtain ⟨p, hp, hdegree⟩ := degree_unscoped dumps owned_after hnone hu a.1
      have hafter := congrArg Prod.fst (h [] [p] (same_nil (by simpa using hp)).symm 0)
      rw [List.append_nil, hone] at hafter
      simp only [reads] at hbefore hafter
      omega
  · rintro (⟨hfirst₁, hfirst₂⟩ | hall) xs ys hnext hops
    · have hfind : ∀ {ls zs : List (Write owner)}, a ∈ ls → FirstAsSubject entity ls →
          FirstAsSubject entity (ls ++ zs) := by
        intro ls zs ha hfirst b hb
        rw [List.find?_append] at hb
        obtain ⟨c, hc⟩ : ∃ c, ls.find? (fun a => decide (Mentions entity a.1)) = some c :=
          Option.isSome_iff_exists.mp (List.find?_isSome.mpr ⟨a, ha, by simp [Mentions, hs]⟩)
        rw [hc, Option.some_or] at hb
        exact hfirst b (hc.trans hb)
      refine reads_scoped
        ((entity_after ⟨a, List.mem_append_left _ ha₁, hs⟩).1 (hfind ha₁ hfirst₁))
        ((entity_after ⟨a, List.mem_append_left _ ha₂, hs⟩).1 (hfind ha₂ hfirst₂))
        (own_after (hsame.append hnext))
    · -- One tenant: the two sequences are one.
      have hsome : ∀ zs : List (Write owner), zs.filter (mine (owner entity)) = zs := fun zs =>
        List.filter_eq_self.mpr fun b _ => by simp [mine, b.2, hall]
      have heq : ls₁ ++ xs = ls₂ ++ ys := by
        have hruns := hsame.append hnext
        rwa [Same, hsome, hsome] at hruns
      rw [heq]

/-! ### A patient another tenant named first -/

def clinic : TenantId := "1c7ad9a4-5f0e-4f0b-8a53-0f3f0d2b7f11"
def pharmacy : TenantId := "9e0b1f62-2c6b-4d1f-9a77-3a54b6c8d022"
def patient : EntityId := "7c9e6679-7425-40de-944b-e07fc1f90ae7"
def dispensary : EntityId := "0d6e2c1f-55a0-4c39-9a2b-5f6f0a7c9d11"

def holder (entity : EntityId) : TenantId := if entity = patient then clinic else pharmacy

/-- One live assertion of the subject's own tenant. -/
def noted (id subject predicate object : String) : Write holder := ⟨{
  assertion_id := id
  tenant_id := holder subject
  «namespace» := "patient:1"
  subject_id := subject
  predicate := predicate
  object := .str object
  confidence := .zero
  risk := .zero
  valid_from := 0
  recorded_at := 0
  provenance := [⟨"note", (0, 1), .VERIFIED_USER, "v", .zero, 0, by decide, by decide⟩]
  trace_id := "t1"
  sourced := by simp
  corroborated := by decide
  interval_coherent := by simp }, rfl⟩

def allergy : Write holder := noted "a1" patient "allergy" "penicillin"
def dispensed : Write holder := noted "b1" dispensary "dispensed_to" patient

/-- The clinic wrote first, and reads of its patient the same with the pharmacy's call as without. -/
theorem isolated_clinic : reads patient 1 (after (fun _ => "") ([allergy] ++ [dispensed])) =
    reads patient 1 (after (fun _ => "") ([allergy, dispensed] ++ [])) := by
  have hfirst : ∀ ls, FirstAsSubject patient (allergy :: ls) := by
    intro ls a ha
    obtain rfl : allergy = a := by simpa [Mentions, allergy, noted] using ha
    rfl
  exact (isolated_iff (fun _ => "") holder patient [allergy] [allergy, dispensed] rfl
    ⟨allergy, by decide +kernel, rfl⟩).mpr (Or.inl ⟨hfirst _, hfirst _⟩) [dispensed] [] rfl 1

/-- The pharmacy wrote the patient down as an object before the clinic had written anything: the patient
    is held for no one from then on, and the clinic's degree of it counts the pharmacy's edge. -/
theorem named_first : ¬ ∀ (dumps : Json → String) (owner : EntityId → TenantId) (entity : EntityId)
    (ls₁ ls₂ : List (Write owner)), Same (mine (owner entity)) ls₁ ls₂ →
    (∃ a ∈ accepted dumps ls₁ Graph.empty, a.1.subject_id = entity) →
    ∀ hops, reads entity hops (after dumps ls₁) = reads entity hops (after dumps ls₂) := by
  intro h
  have hreads := h (fun _ => "") holder patient [allergy] [dispensed, allergy] rfl
    ⟨allergy, by decide +kernel, rfl⟩ 1
  exact absurd (congrArg Prod.fst hreads) (by decide +kernel)

end GuardMem.Neo4j
