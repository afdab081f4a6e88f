import GuardMem.Backends

/-! What `NetworkXGraphStore.neighbors` returns of one tenant's graph.

    The walk skips an edge whose assertion id it has seen, while `add_edge` replaces an edge only between
    the same two nodes: an id written again with another subject or object has two edges, of which a walk
    that reaches both returns one. CORRECT exactly where no two edges in reach have one id
    (`neighbors_exact_iff`), so wherever an id stands for one subject and one object
    (`neighbors_of_history`). -/

namespace GuardMem

open Lib.Table

namespace NetworkX

/-- `neighbors` with the count of hops it is given, of which it takes `max(hops, 0)`. -/
def MultiDiGraph.neighbors (g : MultiDiGraph) (entity : EntityId) (hops : ℤ) : List Edge :=
  NetworkX.neighbors entity hops.toNat g

/-- A live edge whose subject is at most `hops - 1` live edges with string objects from the entity. -/
def MultiDiGraph.InReach (g : MultiDiGraph) (entity : EntityId) (hops : ℤ) (e : Edge) : Prop :=
  ∃ steps : ℕ, steps ≤ hops - 1 ∧
    Lib.Walk.Hops Edge.leads (Live (g.arcs.map Arc.edge)) Edge.subject_id entity steps e

/-- `neighbors` returns the edges in reach, each once, and no others. -/
def MultiDiGraph.Exact (g : MultiDiGraph) (entity : EntityId) (hops : ℤ) : Prop :=
  (g.neighbors entity hops).Nodup ∧ ∀ e, e ∈ g.neighbors entity hops ↔ g.InReach entity hops e

variable {dumps : Json → String} {tenant : TenantId} {writes : List StoredAssertion} {g : MultiDiGraph}
  {entity : EntityId} {hops : ℤ} {e : Edge}

/-- One tenant's calls are all accepted, and leave a graph of that tenant's. -/
theorem after_one_tenant (h : ∀ a ∈ writes, a.tenant_id = tenant) :
    ∃ g, after dumps writes = .ok g ∧ Kept dumps g ∧ ∀ node t, g.tenant node = some t → t = tenant := by
  induction writes using List.reverseRecOn with
  | nil => exact ⟨⟨[], []⟩, rfl, Kept.empty, fun _ _ hnode => by cases hnode⟩
  | append_singleton writes a ih =>
      obtain ⟨g, hg, hkept, hheld⟩ := ih fun b hb => h b (List.mem_append_left _ hb)
      have ha : a.tenant_id = tenant := h a (by simp)
      have hok : upsert_assertion dumps a g = .ok (materialise dumps a g) :=
        upsert_ok.mpr ⟨fun held hnode => (hheld _ _ hnode).trans ha.symm, rfl⟩
      refine ⟨materialise dumps a g, ?_, hkept.upsert hok, fun node t hnode => ?_⟩
      · rw [after] at hg ⊢
        rw [List.foldlM_append, hg]
        exact (bind_pure _).trans hok
      · rw [tenant_materialise] at hnode
        split_ifs at hnode with hsubject
        · exact (Option.some.inj hnode).symm.trans ha
        · exact hheld node t hnode

theorem inReach_iff : g.InReach entity hops e ↔
    Lib.Walk.Within Edge.leads (Live (g.arcs.map Arc.edge)) Edge.subject_id entity hops.toNat e := by
  constructor
  · rintro ⟨steps, hsteps, he⟩
    exact ⟨steps, by omega, he⟩
  · rintro ⟨steps, hsteps, he⟩
    exact ⟨steps, by omega, he⟩

/-- CORRECT: the walk returns exactly what is in reach, each edge once, if and only if no two edges in
    reach have one assertion id. -/
theorem Kept.exact_iff (hk : Kept dumps g) :
    g.Exact entity hops ↔ Lib.Walk.Keyed Edge.assertion_id (g.InReach entity hops) := by
  have hwalk := @Lib.Walk.rounds_exact_iff _ _ _ _ _ Edge.assertion_id Edge.leads
    (Live (g.arcs.map Arc.edge)) Edge.subject_id entity (hop g) hops.toNat (mem_hop hk)
  have hreach : g.InReach entity hops = Lib.Walk.Within Edge.leads (Live (g.arcs.map Arc.edge))
      Edge.subject_id entity hops.toNat := funext fun _ => propext inReach_iff
  have hnodup : (g.neighbors entity hops).Nodup := by
    rw [MultiDiGraph.neighbors, NetworkX.neighbors, rounds_eq hk]
    exact (Lib.Walk.nodup_rounds Lib.Walk.Kept.empty List.nodup_nil).of_map _
  rw [MultiDiGraph.Exact, hreach, ← hwalk, and_iff_right hnodup]
  refine forall_congr' fun e => iff_congr ?_ Iff.rfl
  rw [MultiDiGraph.neighbors, NetworkX.neighbors, rounds_eq hk]
  rfl

/-- CORRECT: of the graph that one tenant's calls build, `neighbors` returns exactly the live edges in
    reach, each once, if and only if no two of them have one assertion id. -/
theorem neighbors_exact_iff (dumps : Json → String) {tenant : TenantId} {writes : List StoredAssertion}
    (h : ∀ a ∈ writes, a.tenant_id = tenant) (entity : EntityId) (hops : ℤ) :
    ∃ g, after dumps writes = .ok g ∧
      (g.Exact entity hops ↔ Lib.Walk.Keyed Edge.assertion_id (g.InReach entity hops)) := by
  obtain ⟨g, hg, hkept, -⟩ := @after_one_tenant dumps tenant writes h
  exact ⟨g, hg, hkept.exact_iff⟩

/-- CORRECT: where an id stands for one subject and one object, that is every entity and every count of
    hops. -/
theorem neighbors_of_history (h : History tenant writes) :
    ∃ g, after dumps writes = .ok g ∧ ∀ entity hops, g.Exact entity hops := by
  obtain ⟨⟨g, hg, hholds⟩, -, hnodup⟩ := @after_holds dumps tenant writes h
  refine ⟨g, hg, fun entity hops => hholds.kept.exact_iff.mpr fun e f he hf => ?_⟩
  rw [← hholds.edges] at hnodup
  exact Live.eq_of_id hnodup e f (inReach_iff.mp he).is_live (inReach_iff.mp hf).is_live

/-! ### An id with two objects -/

/-- What an assertion of that id says of where the patient lives, in the order it is written. -/
def moved (places : List String) : List StoredAssertion :=
  places.map fun place => (Neo4j.noted "a1" Neo4j.patient "lives_in" place).1

theorem moved_one_tenant (places : List String) : ∀ a ∈ moved places, a.tenant_id = Neo4j.clinic := by
  intro a ha
  obtain ⟨place, -, rfl⟩ := List.mem_map.mp ha
  rfl

/-- Written once, it is one edge, and that is returned. -/
theorem leeds_returned : ∃ g, after (fun _ => "") (moved ["Leeds"]) = .ok g ∧
    (g.Exact Neo4j.patient 1 ↔ Lib.Walk.Keyed Edge.assertion_id (g.InReach Neo4j.patient 1)) :=
  neighbors_exact_iff (fun _ => "") (moved_one_tenant ["Leeds"]) Neo4j.patient 1

/-- Written again with another place it is a second live edge from the patient, and one of the two is
    returned. -/
theorem york_missed : ¬ ∀ (dumps : Json → String) (tenant : TenantId) (writes : List StoredAssertion),
    (∀ a ∈ writes, a.tenant_id = tenant) → ∀ g, after dumps writes = .ok g →
      ∀ entity hops, g.Exact entity hops := by
  intro h
  have hbuilt : ((after (fun _ => "") (moved ["Leeds", "York"])).toOption.map fun g =>
      (g.arcs.map Arc.edge, g.neighbors Neo4j.patient 1)) =
        some ((moved ["Leeds", "York"]).map Edge.of, (moved ["Leeds"]).map Edge.of) := by decide +kernel
  cases hg : after (fun _ => "") (moved ["Leeds", "York"]) with
  | error exc =>
      rw [hg] at hbuilt
      cases hbuilt
  | ok g =>
      rw [hg] at hbuilt
      obtain ⟨hedges, hfound⟩ := Prod.mk.inj (Option.some.inj hbuilt)
      have hexact := (h _ _ _ (moved_one_tenant ["Leeds", "York"]) g hg Neo4j.patient 1).2
        (Edge.of (Neo4j.noted "a1" Neo4j.patient "lives_in" "York").1)
      rw [hfound] at hexact
      have hreach : g.InReach Neo4j.patient 1
          (Edge.of (Neo4j.noted "a1" Neo4j.patient "lives_in" "York").1) := by
        refine ⟨0, le_refl 0, .here ⟨?_, rfl⟩ rfl⟩
        rw [hedges]
        exact List.mem_cons_of_mem _ List.mem_cons_self
      exact absurd (hexact.mpr hreach) (by decide +kernel)

end NetworkX

end GuardMem
