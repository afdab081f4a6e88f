import GuardMem.Retired
import GuardMem.Tools.Search

/-! Whether `memory.search` answers with the nearest facts that qualify.

    Each requested predicate has a query of its own, cut at the limit before anyone looks at a confidence,
    and the batches are joined in the order the predicates were asked for. CORRECT: what is kept is the
    nearest of what qualifies, nearest first, exactly where the answer can do without the facts beyond
    their own query's limit and without those that come after a farther one (`nearest_qualifying_iff`). -/

namespace GuardMem

open Lib.Table Lib.Ranking

section

variable (cast : UuidCast) (deps : Deps) (context : ToolContext) (vector : List ℚ) (limit : ℕ) (floor : ℚ)
  (filters : StoreFilters) (as_of : Option Time) (db : Db)

/-- How far a row is from the query. -/
def distance (r : AssertionRow) : ℚ := (row_distance deps vector r).1

/-- A live match: a row the caller may read, valid at the instant, of the subject and of a requested
    predicate. -/
def StoreFilters.admits (r : AssertionRow) : Bool :=
  r.tenant_id == context.tenant_id && r.namespace == context.namespace && r.visible &&
    r.retracted_at.isNone && r.embedding.isSome && (temporal as_of).holds cast r &&
    filters.subject_id.all (fun text => cast text == some r.subject_id) &&
    filters.predicate.all fun requested => requested.contains r.predicate

/-- The live matches whose confidence is at least the floor. -/
def qualifying : List AssertionRow :=
  db.assertions.filter fun r => filters.admits cast context as_of r && floor ≤ r.confidence

/-- The query that asks for a row. -/
def StoreFilters.query (r : AssertionRow) : Option String := filters.predicate.map fun _ => r.predicate

/-- How early that query is made. -/
def StoreFilters.asked (r : AssertionRow) : ℕ := filters.wanted.idxOf (filters.query r)

/-- The live matches of one query, of any confidence. -/
def matches_of (predicate : Option String) : List AssertionRow :=
  db.assertions.filter fun r => filters.admits cast context as_of r && filters.query r == predicate

/-- Fewer than `limit` matches of its own query come ahead of the row. -/
def Reached (r : AssertionRow) : Prop :=
  rank (distance deps vector) (matches_of cast context filters as_of db (filters.query r)) r < limit

instance : DecidablePred (Reached cast deps context vector limit filters as_of db) := fun _ =>
  Nat.decLt _ _

/-- What is kept is the nearest of what qualifies, nearest first, and the trim is as much of it as the
    budget pays for. -/
def AnswersNearest (py : SearchReaders) (budget : ℕ) : Prop :=
  ∃ hits, nearest cast deps context vector limit filters as_of db = .ok hits ∧
    (∃ rows, List.Forall₂ (fun r a => hydrate db r = .ok a) rows (kept floor limit hits) ∧
      IsBest (distance deps vector) limit (qualifying cast context floor filters as_of db) rows) ∧
    LongestStart (tokens py) budget (kept floor limit hits)
      (trim_to_budget py (kept floor limit hits) budget).1

/-- The answer can do without what the queries leave out and what they bring late. -/
structure NothingMissed : Prop where
  castable : ∀ text ∈ filters.subject_id, (cast text).isSome = true
  /-- A qualifying fact that is not reached has `limit` that are, no farther than itself. -/
  beyond : ∀ s ∈ qualifying cast context floor filters as_of db,
    ¬ Reached cast deps context vector limit filters as_of db s →
    limit ≤ (qualifying cast context floor filters as_of db).countP fun r =>
      Reached cast deps context vector limit filters as_of db r ∧
        distance deps vector r ≤ distance deps vector s
  /-- So has one asked for later than a farther one, among what is asked for no later than that one. -/
  late : ∀ x ∈ qualifying cast context floor filters as_of db,
    ∀ s ∈ qualifying cast context floor filters as_of db,
    Reached cast deps context vector limit filters as_of db x →
    Reached cast deps context vector limit filters as_of db s →
    filters.asked x < filters.asked s → distance deps vector s < distance deps vector x →
    limit ≤ (qualifying cast context floor filters as_of db).countP fun r =>
      Reached cast deps context vector limit filters as_of db r ∧
        filters.asked r ≤ filters.asked x ∧ distance deps vector r ≤ distance deps vector s

end

variable {cast : UuidCast} {deps : Deps} {context : ToolContext} {vector : List ℚ} {limit : ℕ} {floor : ℚ}
  {filters : StoreFilters} {as_of : Option Time} {db : Db} {uuid : Uuid5} {r : AssertionRow}
  {predicate : Option String}

/-! ### One query -/

/-- Some query asks for each match, and it alone. -/
theorem admits_wanted (h : filters.admits cast context as_of r = true) :
    filters.query r ∈ filters.wanted := by
  simp only [StoreFilters.admits, Bool.and_eq_true] at h
  unfold StoreFilters.query StoreFilters.wanted
  cases hp : filters.predicate with
  | none => simp
  | some requested => simpa [hp] using h.2

/-- At least one query is made. -/
theorem exists_wanted : ∃ predicate, predicate ∈ filters.wanted := by
  unfold StoreFilters.wanted
  cases hp : filters.predicate with
  | none => exact ⟨none, List.mem_singleton_self _⟩
  | some requested =>
      cases requested with
      | nil => exact absurd hp filters.named
      | cons name rest => exact ⟨some name, List.mem_cons_self⟩

/-- The clauses of one query. -/
def query_clauses (ns : Namespace) (filters : StoreFilters) (as_of : Option Time)
    (predicate : Option String) : List Clause :=
  ALWAYS ns ++ temporal as_of :: ((filters.subject_id.map Clause.subject_id).toList ++
    (predicate.map Clause.predicate).toList)

theorem bound_query (hcast : ∀ text ∈ filters.subject_id, (cast text).isSome = true) (ns : Namespace) :
    bound_clauses cast ns (filters.scope predicate) as_of =
      .ok (query_clauses ns filters as_of predicate) := by
  rw [bound_clauses_eq, bound_filters, StoreFilters.scope, StoreFilters.base, query_clauses]
  rcases hs : filters.subject_id with _ | text <;> rcases predicate with _ | name
  · rfl
  · rfl
  · simp [collect, filter_clause, Clause.bind, hcast text hs, bind, Except.bind]
  · simp [collect, filter_clause, Clause.bind, hcast text hs, bind, Except.bind]

theorem query_refused {text : String} (hs : filters.subject_id = some text) (hcast : cast text = none)
    (ns : Namespace) : bound_clauses cast ns (filters.scope predicate) as_of = .error (.DataError text) := by
  rw [bound_clauses_eq, bound_filters, StoreFilters.scope, StoreFilters.base, hs]
  rcases predicate with _ | name <;> simp [collect, filter_clause, Clause.bind, hcast, bind, Except.bind]

theorem subject_clause : (filters.subject_id.map Clause.subject_id).toList.all (Clause.holds cast r) =
    filters.subject_id.all fun text => cast text == some r.subject_id := by
  cases filters.subject_id with
  | none => rfl
  | some text => exact Bool.and_true _

theorem predicate_clause (h : predicate ∈ filters.wanted) :
    (predicate.map Clause.predicate).toList.all (Clause.holds cast r) =
      (filters.predicate.all (fun requested => requested.contains r.predicate) &&
        filters.query r == predicate) := by
  unfold StoreFilters.wanted at h
  unfold StoreFilters.query
  cases hp : filters.predicate with
  | none =>
      rw [hp, List.mem_singleton] at h
      subst h
      rfl
  | some requested =>
      rw [hp] at h
      obtain ⟨name, hname, rfl⟩ := List.mem_map.mp h
      rw [Bool.eq_iff_iff]
      simp only [Option.map_some, Option.toList_some, List.all_cons, List.all_nil, Bool.and_true, Clause.holds,
        Option.all_some, Bool.and_eq_true, List.contains_iff_mem, beq_iff_eq, Option.some.injEq]
      exact ⟨fun heq => ⟨heq ▸ hname, heq⟩, And.right⟩

/-- One query reads the matches it asks for. -/
theorem selected_query (h : predicate ∈ filters.wanted) :
    selected cast context.tenant_id (query_clauses context.namespace filters as_of predicate) db =
      matches_of cast context filters as_of db predicate := by
  refine List.filter_congr fun r _ => ?_
  simp only [query_clauses, ALWAYS, List.cons_append, List.nil_append, List.all_cons, List.all_append,
    subject_clause, predicate_clause h, StoreFilters.admits]
  simp only [Clause.holds]
  ac_rfl

variable (deps context vector limit as_of) in
/-- One query answers with the best of its matches. -/
theorem query_rows (s : ValueStore uuid) (hcast : ∀ text ∈ filters.subject_id, (cast text).isSome = true)
    (h : predicate ∈ filters.wanted) :
    ∃ hits, PgVectorStore.search cast deps context.tenant_id context.namespace vector limit
        (filters.scope predicate) as_of s.toDb = .ok hits ∧
      List.Forall₂ (fun r a => hydrate s.toDb r = .ok a)
        (best (distance deps vector) limit (matches_of cast context filters as_of s.toDb predicate))
        (hits.map ScoredAssertion.assertion) := by
  have hread : ∀ r ∈ selected cast context.tenant_id (query_clauses context.namespace filters as_of predicate)
      s.toDb, ∃ a, hydrate s.toDb r = .ok a := by
    intro r hr
    have hrow := (mem_selected.mp hr).1
    exact hydrate_legible s.wf hrow (s.legible r hrow)
  obtain ⟨hits, hhits, hrows⟩ := search_hydrated hread (bound_query hcast context.namespace)
  rw [selected_query h] at hrows
  refine ⟨hits, hhits, ?_⟩
  rw [List.forall₂_map_right_iff]
  exact hrows.imp fun _ _ hrow => hrow.1

/-! ### The queries together -/

variable (cast deps context vector limit filters as_of db) in
/-- The rows behind the hits. -/
def merged_rows : List AssertionRow :=
  (filters.wanted.flatMap fun predicate =>
    best (distance deps vector) limit (matches_of cast context filters as_of db predicate)).foldl
      (fun merged r => insertNew AssertionRow.id r merged) []

theorem matches_stored (h : r ∈ matches_of cast context filters as_of db predicate) : r ∈ db.assertions :=
  List.mem_of_mem_filter h

theorem mem_matches : r ∈ matches_of cast context filters as_of db predicate ↔
    r ∈ db.assertions ∧ filters.admits cast context as_of r = true ∧ filters.query r = predicate := by
  simp [matches_of]

variable (deps context vector limit as_of) in
/-- The hits are the merged rows, hydrated. -/
theorem nearest_rows_merged (s : ValueStore uuid)
    (hcast : ∀ text ∈ filters.subject_id, (cast text).isSome = true) :
    ∃ hits, nearest cast deps context vector limit filters as_of s.toDb = .ok hits ∧
      List.Forall₂ (fun r a => hydrate s.toDb r = .ok a)
        (merged_rows cast deps context vector limit filters as_of s.toDb) hits := by
  have hqueries : ∀ wanted : List (Option String), (∀ predicate ∈ wanted, predicate ∈ filters.wanted) →
      ∃ batches, collect (fun scope => PgVectorStore.search cast deps context.tenant_id context.namespace
          vector limit scope as_of s.toDb) (wanted.map filters.scope) = .ok batches ∧
        List.Forall₂ (fun r a => hydrate s.toDb r = .ok a)
          (wanted.flatMap fun predicate =>
            best (distance deps vector) limit (matches_of cast context filters as_of s.toDb predicate))
          (batches.map fun hits => hits.map ScoredAssertion.assertion).flatten := by
    intro wanted
    induction wanted with
    | nil => exact fun _ => ⟨[], rfl, .nil⟩
    | cons predicate wanted ih =>
        intro hall
        obtain ⟨hits, hhits, hrows⟩ := query_rows deps context vector limit as_of s hcast
          (hall predicate List.mem_cons_self)
        obtain ⟨batches, hbatches, hrest⟩ := ih fun p hp => hall p (List.mem_cons_of_mem _ hp)
        refine ⟨hits :: batches, ?_, List.rel_append hrows hrest⟩
        simp only [List.map_cons, collect, hhits, hbatches, bind, Except.bind]
  obtain ⟨batches, hbatches, hrows⟩ := hqueries filters.wanted fun _ h => h
  refine ⟨_, bind_ok.mpr ⟨batches, hbatches, rfl⟩, ?_⟩
  refine forall₂_foldl_insertNew (fun r a ha => ?_) hrows .nil
  exact (hydrate_id ha).1.symm

theorem matches_nodup (hwf : Wf uuid db) :
    (matches_of cast context filters as_of db predicate).Nodup :=
  (List.Nodup.of_map _ hwf.ids_nodup).sublist List.filter_sublist

theorem eq_of_query_id (hwf : Wf uuid db) {q : AssertionRow}
    (hq : q ∈ filters.wanted.flatMap fun predicate =>
      best (distance deps vector) limit (matches_of cast context filters as_of db predicate))
    (hr : r ∈ filters.wanted.flatMap fun predicate =>
      best (distance deps vector) limit (matches_of cast context filters as_of db predicate))
    (hid : q.id = r.id) : q = r := by
  obtain ⟨_, -, hq⟩ := List.mem_flatMap.mp hq
  obtain ⟨_, -, hr⟩ := List.mem_flatMap.mp hr
  exact hwf.eq_of_id (matches_stored (mem_of_best hq)) (matches_stored (mem_of_best hr)) hid

/-- The hits are the matches that are reached. -/
theorem mem_merged_rows (hwf : Wf uuid db) :
    r ∈ merged_rows cast deps context vector limit filters as_of db ↔
      r ∈ db.assertions ∧ filters.admits cast context as_of r = true ∧
        Reached cast deps context vector limit filters as_of db r := by
  refine (mem_foldl_insertNew fun q hq r hr => eq_of_query_id hwf hq hr).trans ?_
  rw [List.mem_flatMap]
  constructor
  · rintro ⟨predicate, -, hr⟩
    have hmatch := mem_of_best hr
    obtain ⟨hstored, hadmits, rfl⟩ := mem_matches.mp hmatch
    exact ⟨hstored, hadmits, (mem_best (matches_nodup hwf) hmatch).mp hr⟩
  · rintro ⟨hstored, hadmits, hreached⟩
    have hmatch := mem_matches.mpr ⟨hstored, hadmits, (rfl : filters.query r = _)⟩
    exact ⟨filters.query r, admits_wanted hadmits, (mem_best (matches_nodup hwf) hmatch).mpr hreached⟩

theorem merged_rows_nodup : (merged_rows cast deps context vector limit filters as_of db).Nodup :=
  List.Nodup.of_map _ (nodup_foldl_insertNew (by simp))

variable (deps vector limit) in
/-- The hits come query by query, nearest first in each. -/
theorem merged_rows_ordered (hwf : Wf uuid db) :
    (merged_rows cast deps context vector limit filters as_of db).Pairwise fun q r =>
      filters.asked q < filters.asked r ∨
        filters.asked q = filters.asked r ∧ distance deps vector q ≤ distance deps vector r := by
  unfold merged_rows StoreFilters.asked
  refine pairwise_insert_groups (fun predicate _ r hr => (mem_matches.mp (mem_of_best hr)).2.2)
    (fun predicate _ => ?_) (fun predicate _ => best_sorted) fun q hq r hr => eq_of_query_id hwf hq hr
  refine (List.nodup_map_iff_inj_on (best_nodup (matches_nodup hwf))).mpr fun q hq r hr hid => ?_
  exact hwf.eq_of_id (matches_stored (mem_of_best hq)) (matches_stored (mem_of_best hr)) hid

/-! ### What is kept -/

variable (cast deps context vector limit floor filters as_of db) in
/-- The rows behind the hits that are at least as confident as the floor. -/
def served_rows : List AssertionRow :=
  (merged_rows cast deps context vector limit filters as_of db).filter fun r => floor ≤ r.confidence

theorem mem_served_rows (hwf : Wf uuid db) :
    r ∈ served_rows cast deps context vector limit floor filters as_of db ↔
      r ∈ qualifying cast context floor filters as_of db ∧
        Reached cast deps context vector limit filters as_of db r := by
  simp only [served_rows, qualifying, List.mem_filter, mem_merged_rows hwf, Bool.and_eq_true]
  tauto

theorem served_rows_nodup :
    (served_rows cast deps context vector limit floor filters as_of db).Nodup :=
  merged_rows_nodup.sublist List.filter_sublist

theorem qualifying_nodup (hwf : Wf uuid db) : (qualifying cast context floor filters as_of db).Nodup :=
  (List.Nodup.of_map _ hwf.ids_nodup).sublist List.filter_sublist

/-- As many of the served meet a condition as of the qualifying that are reached. -/
theorem served_countP (hwf : Wf uuid db) (p : AssertionRow → Prop) [DecidablePred p] :
    (served_rows cast deps context vector limit floor filters as_of db).countP (fun r => p r) =
      (qualifying cast context floor filters as_of db).countP fun r =>
        Reached cast deps context vector limit filters as_of db r ∧ p r := by
  have hperm : (served_rows cast deps context vector limit floor filters as_of db).Perm
      ((qualifying cast context floor filters as_of db).filter fun r =>
        Reached cast deps context vector limit filters as_of db r) := by
    refine (List.perm_ext_iff_of_nodup served_rows_nodup
      ((qualifying_nodup hwf).sublist List.filter_sublist)).mpr fun r => ?_
    rw [mem_served_rows hwf, List.mem_filter, decide_eq_true_eq]
  rw [hperm.countP_eq, List.countP_filter]
  refine List.countP_congr fun r _ => ?_
  simp [and_comm]

variable (limit floor) in
/-- The rows behind what is kept. -/
theorem kept_rows {rows : List AssertionRow} {hits : List StoredAssertion}
    (h : List.Forall₂ (fun r a => hydrate db r = .ok a) rows hits) :
    List.Forall₂ (fun r a => hydrate db r = .ok a)
      ((rows.filter fun r => floor ≤ r.confidence).take limit) (kept floor limit hits) := by
  refine List.forall₂_take limit (List.rel_filter (fun {r a} ha => ?_) h)
  obtain ⟨-, -, -, -, -, hconfidence, -⟩ := hydrate_ok ha
  simp only [decide_eq_true_eq, hconfidence]

/-- The kept facts have one list of rows behind them. -/
theorem rows_unique (hwf : Wf uuid db) {rows rows' : List AssertionRow} {hits : List StoredAssertion}
    (h : List.Forall₂ (fun r a => hydrate db r = .ok a) rows hits)
    (h' : List.Forall₂ (fun r a => hydrate db r = .ok a) rows' hits)
    (hsub : rows ⊆ db.assertions) (hsub' : rows' ⊆ db.assertions) : rows = rows' := by
  induction h generalizing rows' with
  | nil =>
      cases h'
      rfl
  | cons hhead _ ih =>
      cases h' with
      | cons hhead' hrest' =>
          have hid := (hydrate_id hhead).1.symm.trans (hydrate_id hhead').1
          rw [List.cons_subset] at hsub hsub'
          rw [hwf.eq_of_id hsub.1 hsub'.1 hid, ih hrest' hsub.2 hsub'.2]

/-- CORRECT: for every store, query vector, list of predicates, limit, floor, subject and budget, what is
    kept is the nearest of what qualifies, nearest first, exactly where nothing is missed. -/
theorem nearest_qualifying_iff (py : SearchReaders) (cast : UuidCast) (deps : Deps) {uuid : Uuid5}
    (s : ValueStore uuid) (context : ToolContext) (vector : List ℚ) (limit : ℕ) (floor : ℚ)
    (filters : StoreFilters) (as_of : Option Time) (budget : ℕ) :
    AnswersNearest cast deps context vector limit floor filters as_of s.toDb py budget ↔
      NothingMissed cast deps context vector limit floor filters as_of s.toDb := by
  by_cases hcast : ∀ text ∈ filters.subject_id, (cast text).isSome = true
  · obtain ⟨hits, hhits, hmerged⟩ := nearest_rows_merged deps context vector limit as_of s hcast
    have hkept := kept_rows limit floor hmerged
    have hserved : ∀ r, r ∈ served_rows cast deps context vector limit floor filters as_of s.toDb ↔
        r ∈ qualifying cast context floor filters as_of s.toDb ∧
          Reached cast deps context vector limit filters as_of s.toDb r := fun r => mem_served_rows s.wf
    have hbest := serves_best_iff (k := limit) (qualifying_nodup s.wf)
      served_rows_nodup (fun r hr => ((hserved r).mp hr).1)
      ((merged_rows_ordered deps vector limit s.wf).sublist List.filter_sublist)
    simp only [hserved, served_countP s.wf] at hbest
    have hrows : ∀ {rows : List AssertionRow}, rows ⊆ qualifying cast context floor filters as_of s.toDb →
        rows ⊆ s.assertions := fun hsub r hr => List.mem_of_mem_filter (hsub hr)
    constructor
    · rintro ⟨hits', hhits', ⟨rows, hall, hrows_best⟩, -⟩
      obtain rfl := Except.ok.inj (hhits.symm.trans hhits')
      obtain rfl := rows_unique s.wf hall hkept (hrows hrows_best.sub)
        fun r hr => hrows (fun r hr => ((hserved r).mp hr).1) (List.mem_of_mem_take hr)
      obtain ⟨hbeyond, hlate⟩ := hbest.mp hrows_best
      exact ⟨hcast, fun s hs hnot => hbeyond s hs fun hin => hnot hin.2,
        fun x hx s hs hxr hsr => hlate x ⟨hx, hxr⟩ s ⟨hs, hsr⟩⟩
    · rintro ⟨-, hbeyond, hlate⟩
      refine ⟨hits, hhits, ⟨_, hkept, hbest.mpr ⟨fun s hs hnot => ?_, fun x hx s hs => ?_⟩⟩,
        (trim_to_budget_longest _ budget).1⟩
      · exact hbeyond s hs fun hreached => hnot ⟨hs, hreached⟩
      · exact hlate x hx.1 s hs.1 hx.2 hs.2
  · refine iff_of_false ?_ fun h => hcast h.castable
    rintro ⟨hits, hhits, -⟩
    push Not at hcast
    obtain ⟨text, htext, hrefused⟩ := hcast
    obtain ⟨predicate, hwanted⟩ := @exists_wanted filters
    obtain ⟨batches, hbatches, -⟩ := bind_ok.mp hhits
    obtain ⟨hits, -, hsearch⟩ := forall₂_of_mem_right (collect_ok.mp hbatches).flip
      (List.mem_map_of_mem hwanted)
    obtain ⟨clauses, hclauses, -⟩ := bind_ok.mp hsearch
    rw [query_refused htext (Option.not_isSome_iff_eq_none.mp hrefused)] at hclauses
    cases hclauses

/-! ### A nearer fact below the floor -/

namespace Clinical

/-- The clinic's composition, with French said to lie nearer to the query. -/
def near_french : Deps :=
  { Clinical.deps with embedding := fun _ object => if object = .str "French" then [1] else [2] }

/-- French was taken down with little confidence, German with much. -/
def languages_heard : Except Exc Db := do
  let db ← upsert near_french "clinic" 20 [stored_language "a" "French" 10,
    { stored_language "b" "German" 10 with confidence := percent 90 }] Db.empty
  .ok (REVEAL_ASSERTION "clinic" "b" (REVEAL_ASSERTION "clinic" "a" db))

def unfiltered : StoreFilters := ⟨none, none, none_named⟩

/-- Python, as far as a search with no arguments but its query goes. -/
def plain_python : SearchReaders where
  UUID _ := true
  fromisoformat _ := none
  isoformat := toString
  repr := quoted
  type_name _ := "int"
  strip := id
  str_number := toString
  str_object _ := ""

end Clinical

open Clinical in
/-- Asked for one fact of confidence 0.6, the search reads French, drops it, and keeps nothing. -/
theorem nearest_missed : ¬ ∀ (py : SearchReaders) (cast : UuidCast) (deps : Deps) (uuid : Uuid5)
    (s : ValueStore uuid) (context : ToolContext) (vector : List ℚ) (limit : ℕ) (floor : ℚ)
    (filters : StoreFilters) (budget : ℕ),
    AnswersNearest cast deps context vector limit floor filters none s.toDb py budget := by
  intro h
  have hlast : languages_heard.toOption.any (fun db =>
      (db.assertions.all fun r => (ObjectValue.ofJson r.object_json).isSome) &&
      ((nearest some near_french ⟨"clinic", "patient:1"⟩ [1] 1 unfiltered none db).toOption.any fun hits =>
        (kept (6 / 10) 1 hits).isEmpty) &&
      (qualifying some ⟨"clinic", "patient:1"⟩ (6 / 10) unfiltered none db).length == 1) = true := by
    decide +kernel
  cases hdb : languages_heard with
  | error e => rw [hdb] at hlast; cases hlast
  | ok db =>
      rw [hdb] at hlast
      simp only [Except.toOption, Option.any_some, Bool.and_eq_true, List.all_eq_true, beq_iff_eq] at hlast
      obtain ⟨⟨hlegible, hkept⟩, hone⟩ := hlast
      obtain ⟨db₀, hupsert, hreveal⟩ := bind_ok.mp hdb
      have hwf : Wf near_french.uuid db := Except.ok.inj hreveal ▸ (Wf.upsert hupsert .empty).reveal.reveal
      obtain ⟨hits, hhits, ⟨rows, hrows, hbest⟩, -⟩ := h plain_python some near_french near_french.uuid
        ⟨db, hwf, hlegible⟩ ⟨"clinic", "patient:1"⟩ [1] 1 (6 / 10) unfiltered 1500
      rw [hhits] at hkept
      have hlength := hbest.full
      rw [hone, hrows.length_eq, List.isEmpty_iff.mp hkept] at hlength
      cases hlength

end GuardMem
