import Mathlib.Data.List.Induction
import GuardMem.Isolation
import GuardMem.Memory.Selection

/-! Whether the graph backends agree: `NetworkXGraphStore`, `Neo4jGraphStore` and the unit suite's
    `FakeGraphStore`, over the writes of one tenant.

    All three hold the same edges and walk them the same way; they count differently. NetworkX counts an
    arc from an entity to itself twice, and a value's node under a key that an entity may have. CORRECT:
    they agree on an entity exactly where no live edge does either (`backends_agree_iff`). -/

namespace GuardMem

open Lib.Table

/-! ### The unit suite's store -/

/-- Every edge ever written, by assertion. -/
structure FakeGraphStore where
  edges : List Edge := []

namespace FakeGraphStore

/-- Materialise `a` as one edge, idempotently by id. -/
def upsert_assertion (a : StoredAssertion) (g : FakeGraphStore) : FakeGraphStore :=
  ⟨merge Edge.assertion_id (.of a) g.edges⟩

/-- Edges whose belief has not been retired. -/
def live_edges (g : FakeGraphStore) : List Edge := g.edges.filter fun e => e.valid_to.isNone

/-- Live edges out of `entity`, following up to `hops` of them. -/
def neighbors (entity : EntityId) (hops : ℕ) (g : FakeGraphStore) : List Edge :=
  Lib.Walk.rounds Edge.assertion_id Edge.leads
    (fun frontier => g.live_edges.filter fun e => frontier.contains e.subject_id) hops [entity] {}

/-- How many live edges touch `entity`, in either direction. -/
def degree (entity : EntityId) (g : FakeGraphStore) : ℕ :=
  g.live_edges.countP fun e => e.subject_id == entity || e.object.pyEq (.str entity)

/-- The store after a sequence of calls. -/
def after (writes : List StoredAssertion) : FakeGraphStore :=
  writes.foldl (fun g a => g.upsert_assertion a) {}

end FakeGraphStore

/-! ### The calls -/

/-- The graphs after a sequence of calls, each of which may refuse. -/
def NetworkX.after (dumps : Json → String) (writes : List StoredAssertion) :
    Except Exc NetworkX.MultiDiGraph :=
  writes.foldlM (fun g a => NetworkX.upsert_assertion dumps a g) ⟨[], []⟩

def Neo4j.upserted (dumps : Json → String) (writes : List StoredAssertion) : Except Exc Neo4j.Graph :=
  writes.foldlM (fun g a => Neo4j.upsert_assertion dumps a g) Neo4j.Graph.empty

/-- One tenant's calls; an assertion id stands for one subject and one value. -/
structure History (tenant : TenantId) (writes : List StoredAssertion) : Prop where
  tenant : ∀ a ∈ writes, a.tenant_id = tenant
  same : ∀ a ∈ writes, ∀ b ∈ writes, a.assertion_id = b.assertion_id →
    a.subject_id = b.subject_id ∧ a.object = b.object

/-- What the calls leave: each assertion's edge, as it was written last. -/
def latest (writes : List StoredAssertion) : List Edge := (FakeGraphStore.after writes).edges

/-- A live edge that NetworkX counts once more than it has ends at the entity: it leads back to where it
    leaves, or its value's node has the entity's key. -/
def Overcounted (dumps : Json → String) (entity : EntityId) (e : Edge) : Prop :=
  e.valid_to = none ∧ NetworkX.object_key dumps e.object = entity ∧
    (e.subject_id = entity ∨ e.object ≠ .str entity)

/-- The three stores answer alike about an entity: the same degree, and the same edges at any distance. -/
def BackendsAgree (dumps : Json → String) (writes : List StoredAssertion) (entity : EntityId) : Prop :=
  ∃ nx neo, NetworkX.after dumps writes = .ok nx ∧ Neo4j.upserted dumps writes = .ok neo ∧
    (NetworkX.degree entity nx = Neo4j.degree entity neo ∧
      Neo4j.degree entity neo = (FakeGraphStore.after writes).degree entity) ∧
    ∀ hops, ∃ found, Neo4j.neighbors entity hops neo = .ok found ∧
      ∀ e, (e ∈ NetworkX.neighbors entity hops nx ↔ e ∈ found) ∧
        (e ∈ found ↔ e ∈ (FakeGraphStore.after writes).neighbors entity hops)

variable {dumps : Json → String} {tenant : TenantId} {es : List Edge} {a : StoredAssertion}
  {entity : EntityId}

/-- The new write stands for the same subject and value as an edge under its id. -/
def Consistent (es : List Edge) (a : StoredAssertion) : Prop :=
  ∀ e ∈ es, e.assertion_id = a.assertion_id → e.subject_id = a.subject_id ∧ e.object = a.object

/-! ### Each backend holds the latest edges -/

/-- NetworkX holds these edges, for this tenant. -/
structure NetworkX.Holds (dumps : Json → String) (tenant : TenantId) (es : List Edge)
    (g : NetworkX.MultiDiGraph) : Prop where
  kept : NetworkX.Kept dumps g
  edges : g.arcs.map NetworkX.Arc.edge = es
  held : ∀ node t, g.tenant node = some t → t = tenant

theorem NetworkX.Holds.upsert {g : NetworkX.MultiDiGraph} (h : NetworkX.Holds dumps tenant es g)
    (ht : a.tenant_id = tenant) (hsame : Consistent es a) :
    ∃ g', NetworkX.upsert_assertion dumps a g = .ok g' ∧
      NetworkX.Holds dumps tenant (merge Edge.assertion_id (.of a) es) g' := by
  have hok : NetworkX.upsert_assertion dumps a g = .ok (NetworkX.materialise dumps a g) :=
    NetworkX.upsert_ok.mpr ⟨fun held hheld => (h.held _ _ hheld).trans ht.symm, rfl⟩
  refine ⟨_, hok, h.kept.upsert hok, ?_, fun node t hnode => ?_⟩
  · rw [NetworkX.materialise, NetworkX.arcs_add_edge, ← h.edges]
    refine map_merge fun b hb => ?_
    -- an arc's slot is told by its assertion
    obtain ⟨hs, hto, hk⟩ := h.kept.keyed b hb
    constructor
    · intro hslot
      have hslot : b.key = a.assertion_id := congrArg (fun s => s.2.2) hslot
      exact hk.symm.trans hslot
    · intro hid
      obtain ⟨hsubject, hobject⟩ := hsame b.edge (h.edges ▸ List.mem_map_of_mem hb) hid
      simp only [NetworkX.Arc.slot, NetworkX.arcOf, Prod.mk.injEq]
      exact ⟨hs.trans hsubject, by rw [hto, hobject], hk.trans hid⟩
  · rw [NetworkX.tenant_materialise] at hnode
    split at hnode
    · exact (Option.some.inj hnode).symm.trans ht
    · exact h.held node t hnode

namespace Neo4j

/-- The edge a row is read back as. -/
def Rel.edge (r : Rel) : Edge where
  assertion_id := r.assertion_id
  subject_id := r.subject_id
  predicate := r.predicate
  object := (ObjectValue.ofJson r.object_json).getD (.dict .nil)
  confidence := r.confidence
  valid_from := r.valid_from
  valid_to := r.valid_to
  trace_id := r.trace_id

@[simp] theorem edge_rel : (rel dumps a).edge = .of a := by simp [Rel.edge, rel, Edge.of]

/-- Neo4j holds these edges, for this tenant, each relationship between nodes that exist. -/
structure Holds (dumps : Json → String) (tenant : TenantId) (es : List Edge) (g : Graph) : Prop where
  written : ∀ r ∈ g.rels, ∃ a, a.tenant_id = tenant ∧ r = rel dumps a
  edges : g.rels.map Rel.edge = es
  held : ∀ key t, g.entity key = some (some t) → t = tenant
  sources : ∀ r ∈ g.rels, (g.entity r.source).isSome = true
  targets : ∀ r ∈ g.rels, r.object_is_entity = true → (g.entity r.object_key).isSome = true

theorem Holds.upsert {g : Graph} (h : Holds dumps tenant es g) (ht : a.tenant_id = tenant)
    (hsame : Consistent es a) :
    ∃ g', upsert_assertion dumps a g = .ok g' ∧
      Holds dumps tenant (merge Edge.assertion_id (.of a) es) g' := by
  have hkeep : ∀ key, (g.entity key).isSome = true → ((Neo4j.upsert dumps a g).entity key).isSome = true := by
    intro key hkey
    obtain ⟨held, hnode⟩ := Option.isSome_iff_exists.mp hkey
    rw [entity_upsert, hnode]
    rfl
  have hmention : ∀ key, Mentions key a → ((Neo4j.upsert dumps a g).entity key).isSome = true := by
    intro key hkey
    rw [entity_upsert]
    cases g.entity key <;> simp [hkey]
  refine ⟨_, upsert_ok.mpr ⟨fun held hheld => ?_, rfl⟩, ?_, ?_, fun key t hkey => ?_, ?_, ?_⟩
  · exact (h.held _ _ (Option.join_eq_some_iff.mp hheld)).trans ht.symm
  · intro r hr
    rcases mem_merge.mp hr with rfl | ⟨hr, -⟩
    · exact ⟨a, ht, rfl⟩
    · exact h.written r hr
  · rw [rels_upsert, ← h.edges, ← @edge_rel dumps]
    refine map_merge fun r hr => ?_
    obtain ⟨b, -, rfl⟩ := h.written r hr
    constructor
    · intro hends
      exact congrArg (fun e => e.2.2.2) hends
    · intro hid
      obtain ⟨hsubject, hobject⟩ := hsame (rel dumps b).edge (h.edges ▸ List.mem_map_of_mem hr) hid
      rw [edge_rel] at hsubject hobject hid
      change b.subject_id = a.subject_id at hsubject
      change b.object = a.object at hobject
      change b.assertion_id = a.assertion_id at hid
      simp only [Rel.ends, rel, hsubject, hobject, hid]
  · rw [entity_upsert] at hkey
    cases hold : g.entity key with
    | some held =>
        rw [hold] at hkey
        exact h.held key t (hold.trans hkey)
    | none =>
        by_cases hs : a.subject_id = key
        · have heq : a.tenant_id = t := by simpa [hold, hs, Mentions] using hkey
          exact heq.symm.trans ht
        · simp [hold, hs, Mentions] at hkey
  · intro r hr
    rcases mem_merge.mp hr with rfl | ⟨hr, -⟩
    · exact hmention _ (Or.inl rfl)
    · exact hkeep _ (h.sources r hr)
  · intro r hr hentity
    rcases mem_merge.mp hr with rfl | ⟨hr, -⟩
    · refine hmention _ (Or.inr ?_)
      cases ho : a.object <;> simp [rel, ho, NetworkX.object_key] at hentity ⊢
    · exact hkeep _ (h.targets r hr hentity)

end Neo4j

/-- The run lemma: no call is refused, and each backend holds what the fake holds. -/
theorem after_holds {writes : List StoredAssertion} (h : History tenant writes) :
    (∃ g, NetworkX.after dumps writes = .ok g ∧ NetworkX.Holds dumps tenant (latest writes) g) ∧
      (∃ g, Neo4j.upserted dumps writes = .ok g ∧ Neo4j.Holds dumps tenant (latest writes) g) ∧
      ((latest writes).map Edge.assertion_id).Nodup := by
  -- the induction is on the last call
  suffices hrun : ∀ done : List StoredAssertion, done <+: writes →
      (∃ g, NetworkX.after dumps done = .ok g ∧ NetworkX.Holds dumps tenant (latest done) g) ∧
      (∃ g, Neo4j.upserted dumps done = .ok g ∧ Neo4j.Holds dumps tenant (latest done) g) ∧
      ((latest done).map Edge.assertion_id).Nodup ∧ ∀ e ∈ latest done, ∃ b ∈ done, e = Edge.of b by
    obtain ⟨hnx, hneo, hnodup, -⟩ := hrun writes (List.prefix_refl _)
    exact ⟨hnx, hneo, hnodup⟩
  intro done
  induction done using List.reverseRecOn with
  | nil =>
      refine fun _ => ⟨⟨_, rfl, NetworkX.Kept.empty, rfl, by simp [NetworkX.MultiDiGraph.tenant]⟩,
        ⟨_, rfl, ?_⟩, by simp [latest, FakeGraphStore.after], by simp [latest, FakeGraphStore.after]⟩
      constructor <;> simp [Neo4j.Graph.empty, Neo4j.Graph.entity, latest, FakeGraphStore.after]
  | append_singleton done a ih =>
      intro hdone
      have hin : ∀ b ∈ done ++ [a], b ∈ writes := fun b hb => hdone.subset hb
      obtain ⟨⟨nx, hnx, hholds⟩, ⟨neo, hneo, hholds'⟩, hnodup, horigin⟩ :=
        ih ((List.prefix_append done [a]).trans hdone)
      have hlatest : latest (done ++ [a]) = merge Edge.assertion_id (.of a) (latest done) := by
        simp [latest, FakeGraphStore.after, FakeGraphStore.upsert_assertion]
      have ht := h.tenant a (hin a (by simp))
      have hsame : Consistent (latest done) a := by
        intro e he hid
        obtain ⟨b, hb, rfl⟩ := horigin e he
        exact h.same b (hin b (List.mem_append_left _ hb)) a (hin a (by simp)) hid
      obtain ⟨nx', hup, hnx'⟩ := hholds.upsert ht hsame
      obtain ⟨neo', hup', hneo'⟩ := hholds'.upsert ht hsame
      rw [hlatest]
      refine ⟨⟨nx', ?_, hnx'⟩, ⟨neo', ?_, hneo'⟩, nodup_merge hnodup, fun e he => ?_⟩
      · rw [NetworkX.after] at hnx ⊢
        rw [List.foldlM_append, hnx]
        exact (bind_pure _).trans hup
      · rw [Neo4j.upserted] at hneo ⊢
        rw [List.foldlM_append, hneo]
        exact (bind_pure _).trans hup'
      · rcases mem_merge.mp he with rfl | ⟨he, -⟩
        · exact ⟨a, by simp, rfl⟩
        · obtain ⟨b, hb, rfl⟩ := horigin e he
          exact ⟨b, List.mem_append_left _ hb, rfl⟩

/-! ### The walks -/

/-- A live edge among those held. -/
def Live (es : List Edge) (e : Edge) : Prop := e ∈ es ∧ e.valid_to = none

theorem Live.eq_of_id (hnodup : (es.map Edge.assertion_id).Nodup) (e f : Edge) (he : Live es e)
    (hf : Live es f) (hid : e.assertion_id = f.assertion_id) : e = f :=
  eq_of_key Edge.assertion_id hnodup he.1 hf.1 hid

/-- Within how many hops of the entity a live edge leaves. -/
def Within (es : List Edge) (entity : EntityId) (hops : ℕ) (e : Edge) : Prop :=
  ∃ m < hops, Lib.Walk.Hops Edge.leads (Live es) Edge.subject_id entity m e

theorem FakeGraphStore.mem_neighbors {g : FakeGraphStore} {hops : ℕ} {e : Edge}
    (hnodup : (g.edges.map Edge.assertion_id).Nodup) :
    e ∈ g.neighbors entity hops ↔ Within g.edges entity hops e := by
  refine Lib.Walk.mem_rounds (fun F b => ?_) (Live.eq_of_id hnodup)
  simp only [live_edges, List.mem_filter, Option.isNone_iff_eq_none, List.contains_iff_mem, Live]

/-- The hop of the walk: the live edges that leave the frontier. -/
theorem NetworkX.mem_hop {g : NetworkX.MultiDiGraph} (hk : NetworkX.Kept dumps g) (frontier : List String) (e : Edge) :
    e ∈ NetworkX.hop g frontier ↔ Live (g.arcs.map NetworkX.Arc.edge) e ∧ e.subject_id ∈ frontier := by
  simp only [NetworkX.hop, List.mem_flatMap, List.mem_filter, List.mem_map, NetworkX.mem_out_edges,
    Option.isNone_iff_eq_none, Live]
  constructor
  · rintro ⟨node, hnode, ⟨c, ⟨hc, rfl⟩, rfl⟩, hlive⟩
    exact ⟨⟨⟨c, hc, rfl⟩, hlive⟩, (hk.keyed c hc).1 ▸ hnode⟩
  · rintro ⟨⟨⟨c, hc, rfl⟩, hlive⟩, hnode⟩
    exact ⟨_, hnode, ⟨c, ⟨hc, (hk.keyed c hc).1⟩, rfl⟩, hlive⟩

theorem NetworkX.Holds.mem_neighbors {g : NetworkX.MultiDiGraph} {hops : ℕ} {e : Edge}
    (h : NetworkX.Holds dumps tenant es g) (hnodup : (es.map Edge.assertion_id).Nodup) :
    e ∈ NetworkX.neighbors entity hops g ↔ Within es entity hops e := by
  rw [NetworkX.neighbors, NetworkX.rounds_eq h.kept]
  have hlive := h.edges ▸ NetworkX.mem_hop h.kept
  exact Lib.Walk.mem_rounds hlive (Live.eq_of_id hnodup)

namespace Neo4j

def Walk.toLib (w : Walk) : Lib.Walk AssertionId Edge String := ⟨w.seen, w.found, w.following⟩

/-- Rows that assertions were written as are followed as the edges they carry. -/
theorem follow_written : ∀ {rows : List Rel} {w : Walk}, (∀ r ∈ rows, ∃ a, r = rel dumps a) →
    ∃ w', follow rows w = .ok w' ∧ w'.toLib = (rows.map Rel.edge).foldl
      (Lib.Walk.visit Edge.assertion_id Edge.leads) w.toLib
  | [], w, _ => ⟨w, rfl, rfl⟩
  | r :: rows, w, hrows => by
      obtain ⟨a, rfl⟩ := hrows _ List.mem_cons_self
      have hrest : ∀ q ∈ rows, ∃ a, q = rel dumps a := fun q hq => hrows q (List.mem_cons_of_mem _ hq)
      rw [List.map_cons, List.foldl_cons, edge_rel]
      by_cases hseen : a.assertion_id ∈ w.seen
      · obtain ⟨w', hw', hfound⟩ := follow_written (w := w) hrest
        refine ⟨w', ?_, ?_⟩
        · rw [follow, if_pos (by simpa [rel] using hseen), hw']
        · rw [hfound, Lib.Walk.visit_old (w := w.toLib) hseen]
      · have hedge : edge_from (rel dumps a) = .ok (.of a) := by simp [edge_from, rel, Edge.of]
        obtain ⟨w', hw', hfound⟩ := follow_written (w := ⟨a.assertion_id :: w.seen, w.found ++ [Edge.of a],
          if (rel dumps a).object_is_entity && !w.following.contains (rel dumps a).object_key
            then w.following ++ [(rel dumps a).object_key] else w.following⟩) hrest
        refine ⟨w', ?_, ?_⟩
        · rw [follow, if_neg (by simpa [rel] using hseen), hedge]
          exact hw'
        · rw [hfound, Lib.Walk.visit_new (w := w.toLib) hseen]
          refine congrArg (fun following => List.foldl _ (Lib.Walk.mk _ _ following) _) ?_
          rcases ho : a.object with key | _ | _ | _
          · by_cases hold : key ∈ w.following <;>
              simp [rel, ho, Edge.leads, Edge.of, NetworkX.object_key, hold, Walk.toLib]
          all_goals simp [rel, ho, Edge.leads, Edge.of, Walk.toLib]

/-- The backend's walk is the library's, over the edges its rows carry. -/
theorem rounds_written {hop : List String → List Rel}
    (hrows : ∀ F, ∀ r ∈ hop F, ∃ a, r = rel dumps a) : ∀ {n : ℕ} {frontier : List String} {w : Walk},
    rounds hop n frontier w = .ok (Lib.Walk.rounds Edge.assertion_id Edge.leads
      (fun F => (hop F).map Rel.edge) n frontier w.toLib)
  | 0, _, _ => rfl
  | n + 1, frontier, w => by
      obtain ⟨w', hw', hlib⟩ := follow_written (w := { w with following := [] }) (hrows frontier)
      have hround : ((hop frontier).map Rel.edge).foldl (Lib.Walk.visit Edge.assertion_id Edge.leads)
          { w.toLib with following := [] } = w'.toLib := hlib.symm
      simp only [rounds, Lib.Walk.rounds, hround, hw']
      change (if w'.following = [] then _ else _) = _
      rw [rounds_written hrows]
      by_cases hempty : w'.following = [] <;> simp [hempty, Walk.toLib]

theorem Holds.tenant_all {g : Graph} (h : Holds dumps tenant es g) {r : Rel} (hr : r ∈ g.rels) :
    (tenant_of entity g).all (· == r.tenant_id) = true := by
  obtain ⟨a, ha, rfl⟩ := h.written r hr
  cases ht : tenant_of entity g with
  | none => rfl
  | some t =>
      have heq := h.held entity t (Option.join_eq_some_iff.mp ht)
      simpa [rel, ha] using heq

theorem Holds.mem_neighbors {g : Graph} {hops : ℕ} (h : Holds dumps tenant es g)
    (hnodup : (es.map Edge.assertion_id).Nodup) :
    ∃ found, neighbors entity hops g = .ok found ∧ ∀ e, e ∈ found ↔ Within es entity hops e := by
  refine ⟨_, @rounds_written dumps _ (fun F r hr => ?_) _ _ _, fun e => ?_⟩
  · obtain ⟨a, -, ha⟩ := h.written r (List.mem_of_mem_filter hr)
    exact ⟨a, ha⟩
  · refine Lib.Walk.mem_rounds (fun F b => ?_) (Live.eq_of_id hnodup)
    simp only [HOP, List.mem_map, List.mem_filter, Bool.and_eq_true, List.contains_iff_mem,
      Option.isNone_iff_eq_none, Live, ← h.edges]
    constructor
    · rintro ⟨r, ⟨hr, ⟨hF, hlive⟩, -⟩, rfl⟩
      obtain ⟨a, -, rfl⟩ := h.written r hr
      exact ⟨⟨⟨_, hr, rfl⟩, hlive⟩, hF⟩
    · rintro ⟨⟨⟨r, hr, rfl⟩, hlive⟩, hF⟩
      refine ⟨r, ⟨hr, ⟨?_, hlive⟩, h.tenant_all hr⟩, rfl⟩
      obtain ⟨a, -, rfl⟩ := h.written r hr
      exact hF

end Neo4j

/-! ### The counts -/

/-- A live edge at the entity, either way round. -/
def touches (entity : EntityId) (e : Edge) : Bool :=
  e.valid_to.isNone && (e.subject_id == entity || e.object.pyEq (.str entity))

theorem FakeGraphStore.degree_eq {g : FakeGraphStore} :
    g.degree entity = g.edges.countP (touches entity) := by
  rw [degree, live_edges, List.countP_filter]
  exact List.countP_congr fun e _ => by rw [touches, Bool.and_comm]

theorem Neo4j.Holds.degree_eq {g : Neo4j.Graph} (h : Neo4j.Holds dumps tenant es g) :
    Neo4j.degree entity g = es.countP (touches entity) := by
  have htouch : ∀ r ∈ g.rels, touches entity r.edge = true ↔
      (r.source == entity || (r.object_is_entity && r.object_key == entity)) = true ∧
        r.valid_to.isNone = true := by
    intro r hr
    obtain ⟨a, -, rfl⟩ := h.written r hr
    rw [Neo4j.edge_rel]
    cases ho : a.object <;>
      simp [touches, Edge.of, Neo4j.rel, ho, ObjectValue.pyEq, ObjectValue.toJson, Json.pyEq,
        NetworkX.object_key, and_comm]
  rw [← h.edges, List.countP_map]
  unfold Neo4j.degree
  cases hnode : g.entity entity with
  | none =>
      refine (List.countP_eq_zero.mpr fun r hr htrue => ?_).symm
      rcases Bool.or_eq_true _ _ ▸ ((htouch r hr).mp htrue).1 with hs | ho
      · have := h.sources r hr
        rw [eq_of_beq hs, hnode] at this
        cases this
      · obtain ⟨hentity, hkey⟩ := Bool.and_eq_true _ _ ▸ ho
        have := h.targets r hr hentity
        rw [eq_of_beq hkey, hnode] at this
        cases this
  | some held =>
      refine List.countP_congr fun r hr => ?_
      have hscope : (tenant_of entity g).all (· == r.tenant_id) = true := h.tenant_all hr
      rw [Neo4j.tenant_of, hnode] at hscope
      rw [Function.comp, htouch r hr, Bool.and_eq_true, Bool.and_eq_true]
      exact ⟨fun hr => hr.1, fun hr => ⟨hr, hscope⟩⟩

instance {e : Edge} : Decidable (Overcounted dumps entity e) := inferInstanceAs (Decidable (_ ∧ _ ∧ _))

/-- CORRECT: NetworkX counts every edge at the entity, and some of them once more. -/
theorem NetworkX.Holds.degree_eq {g : NetworkX.MultiDiGraph} (h : NetworkX.Holds dumps tenant es g) :
    NetworkX.degree entity g = es.countP (touches entity) +
      es.countP fun e => Decidable.decide (Overcounted dumps entity e) := by
  have hedge : ∀ e : Edge, NetworkX.counts dumps entity e =
      (if touches entity e then 1 else 0) + if Overcounted dumps entity e then 1 else 0 := by
    intro e
    cases hv : e.valid_to with
    | some t => simp [NetworkX.counts, touches, Overcounted, hv]
    | none =>
        rcases ho : e.object with key | _ | _ | _
        · by_cases hs : e.subject_id = entity <;> by_cases hk : key = entity <;>
            simp [NetworkX.counts, touches, Overcounted, hv, ho, hs, hk, NetworkX.object_key,
              ObjectValue.pyEq, ObjectValue.toJson, Json.pyEq]
        all_goals
          simp [NetworkX.counts, touches, Overcounted, hv, ho, ObjectValue.pyEq, ObjectValue.toJson,
            Json.pyEq]
  have hsum : ∀ es : List Edge, (es.map (NetworkX.counts dumps entity)).sum =
      es.countP (touches entity) + es.countP fun e => Decidable.decide (Overcounted dumps entity e) := by
    intro es
    induction es with
    | nil => rfl
    | cons e es ih =>
        simp only [List.map_cons, List.sum_cons, List.countP_cons, ih, hedge, decide_eq_true_eq]
        omega
  rw [NetworkX.degree_eq h.kept, ← hsum es, ← h.edges, List.map_map]
  rfl

/-- CORRECT: the stores agree on an entity exactly where NetworkX counts none of its edges once more. -/
theorem backends_agree_iff (dumps : Json → String) {tenant : TenantId} {writes : List StoredAssertion}
    (h : History tenant writes) (entity : EntityId) :
    BackendsAgree dumps writes entity ↔ ∀ e ∈ latest writes, ¬ Overcounted dumps entity e := by
  obtain ⟨⟨nx, hnx, hholds⟩, ⟨neo, hneo, hholds'⟩, hnodup⟩ := @after_holds dumps tenant writes h
  have hdegree : NetworkX.degree entity nx = Neo4j.degree entity neo ↔
      ∀ e ∈ latest writes, ¬ Overcounted dumps entity e := by
    rw [hholds.degree_eq, hholds'.degree_eq, Nat.add_eq_left, List.countP_eq_zero]
    simp only [decide_eq_true_eq]
  constructor
  · rintro ⟨nx', neo', hnx', hneo', ⟨hsame, -⟩, -⟩
    obtain rfl := Except.ok.inj (hnx.symm.trans hnx')
    obtain rfl := Except.ok.inj (hneo.symm.trans hneo')
    exact hdegree.mp hsame
  · intro hnone
    refine ⟨nx, neo, hnx, hneo, ⟨hdegree.mpr hnone, ?_⟩, fun hops => ?_⟩
    · rw [hholds'.degree_eq, FakeGraphStore.degree_eq]
      rfl
    · obtain ⟨found, hfound, hmem⟩ := @Neo4j.Holds.mem_neighbors dumps tenant (latest writes) entity neo hops
        hholds' hnodup
      refine ⟨found, hfound, fun e => ⟨?_, ?_⟩⟩
      · rw [hmem, hholds.mem_neighbors hnodup]
      · rw [hmem, FakeGraphStore.mem_neighbors hnodup]
        rfl

/-! ### A patient who is their own next of kin -/

open Neo4j in
theorem kin_history (value : String) :
    History clinic [(noted "a1" Neo4j.patient "next_of_kin" value).1] := by
  constructor
  · rintro a ha
    rw [List.mem_singleton.mp ha]
    rfl
  · rintro a ha b hb -
    rw [List.mem_singleton.mp ha, List.mem_singleton.mp hb]
    exact ⟨rfl, rfl⟩

open Neo4j in
/-- Named by a name, the next of kin is another node. -/
theorem kin_of_another :
    BackendsAgree (fun _ => "") [(noted "a1" Neo4j.patient "next_of_kin" "Joan").1] Neo4j.patient :=
  (backends_agree_iff (fun _ => "") (kin_history "Joan") Neo4j.patient).mpr (by decide +kernel)

open Neo4j in
/-- Named by the patient's own id, it is one edge that touches the patient twice. -/
theorem kin_of_oneself : ¬ ∀ (dumps : Json → String) (tenant : TenantId) (writes : List StoredAssertion),
    History tenant writes → ∀ entity, BackendsAgree dumps writes entity := by
  intro h
  obtain ⟨nx, neo, hnx, hneo, ⟨hsame, -⟩, -⟩ :=
    h (fun _ => "") clinic _ (kin_history Neo4j.patient) Neo4j.patient
  have htwice : (NetworkX.after (fun _ => "")
      [(noted "a1" Neo4j.patient "next_of_kin" Neo4j.patient).1]).toOption.map
        (NetworkX.degree Neo4j.patient) = some 2 := by decide +kernel
  have honce : (Neo4j.upserted (fun _ => "")
      [(noted "a1" Neo4j.patient "next_of_kin" Neo4j.patient).1]).toOption.map
        (Neo4j.degree Neo4j.patient) = some 1 := by decide +kernel
  rw [hnx] at htwice
  rw [hneo] at honce
  have htwo : NetworkX.degree Neo4j.patient nx = 2 := Option.some.inj htwice
  have hone : Neo4j.degree Neo4j.patient neo = 1 := Option.some.inj honce
  omega

end GuardMem
