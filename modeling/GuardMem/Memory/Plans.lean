import GuardMem.Memory.Queries

/-! How Postgres answers a read that is ranked by distance.

    `assertion_hnsw` may answer it: at most `hnsw.ef_search` rows of the whole partial index, every
    tenant's and every key's, and the read's other clauses only afterwards. The index holds live rows, so a
    read as of an instant has to look at them all. CORRECT: every scan that finds as many rows as it may
    comes to a row of a kind exactly where fewer than `ef_search` are of another (`scans_hit_iff`), and to
    every row of a kind exactly where there is none or the whole index is no larger
    (`full_scans_cover_iff`). -/

namespace GuardMem

/-! ### What a filter leaves of a bounded scan -/

/-- A scan that takes `n` of the rows, or all, is sure to take one that passes if and only if fewer than
    `n` of them do not. -/
theorem scans_hit_iff {α : Type*} {rows : List α} {p : α → Bool} {n : ℕ} (hrows : rows.Nodup)
    (hsome : ∃ r ∈ rows, p r = true) :
    (∀ scan : List α, scan.Nodup → scan ⊆ rows → scan.length = min n rows.length →
      ∃ r ∈ scan, p r = true) ↔ (rows.filter fun r => !p r).length < n := by
  constructor
  · intro h
    by_contra hmany
    have hsub : (rows.filter fun r => !p r).take n ⊆ rows := fun r hr =>
      (List.mem_filter.mp (List.mem_of_mem_take hr)).1
    have hlen : ((rows.filter fun r => !p r).take n).length = min n rows.length := by
      have hle := List.length_filter_le (fun r => !p r) rows
      rw [List.length_take]
      omega
    obtain ⟨r, hr, hp⟩ := h _ ((hrows.filter _).sublist (List.take_sublist _ _)) hsub hlen
    have hnot := (List.mem_filter.mp (List.mem_of_mem_take hr)).2
    rw [hp] at hnot
    cases hnot
  · intro hfew scan hscan hsub hlen
    by_contra hnone
    have hothers : scan ⊆ rows.filter fun r => !p r := by
      intro r hr
      refine List.mem_filter.mpr ⟨hsub hr, ?_⟩
      cases hp : p r with
      | false => rfl
      | true => exact absurd ⟨r, hr, hp⟩ hnone
    have hle := (hscan.subperm hothers).length_le
    have hlt : (rows.filter fun r => !p r).length < rows.length := by
      obtain ⟨r, hr, hp⟩ := hsome
      exact List.length_filter_lt_length_iff_exists.mpr ⟨r, hr, by simp [hp]⟩
    omega

/-- A scan without repetitions that takes as many rows as there are takes them all. -/
theorem scan_covers {α : Type*} {rows scan : List α} {n : ℕ} (hscan : scan.Nodup) (hsub : scan ⊆ rows)
    (hlen : scan.length = min n rows.length) (hroom : rows.length ≤ n) : rows ⊆ scan := by
  have hperm := (hscan.subperm hsub).perm_of_length_le (by omega)
  exact fun r hr => hperm.mem_iff.mpr hr

/-- With more rows than a scan takes, one of them can be passed over, the others taken in their order. -/
theorem exists_scan_missing {α : Type*} [DecidableEq α] {rows : List α} {r : α} {n : ℕ} (hrows : rows.Nodup)
    (hr : r ∈ rows) (hmany : n < rows.length) :
    ∃ scan : List α, scan.Sublist rows ∧ scan.length = min n rows.length ∧ r ∉ scan := by
  refine ⟨(rows.erase r).take n, (List.take_sublist _ _).trans List.erase_sublist, ?_, fun hin => ?_⟩
  · rw [List.length_take, List.length_erase_of_mem hr]
    omega
  · exact hrows.not_mem_erase (List.mem_of_mem_take hin)

/-- Parts of a list without repetitions that have the same members are the same. -/
theorem sublists_eq {α : Type*} {rows xs ys : List α} (hrows : rows.Nodup) (hxs : xs.Sublist rows)
    (hys : ys.Sublist rows) (h : ∀ r, r ∈ xs ↔ r ∈ ys) : xs = ys := by
  induction rows generalizing xs ys with
  | nil => rw [List.sublist_nil.mp hxs, List.sublist_nil.mp hys]
  | cons r rows ih =>
      obtain ⟨hr, hrows⟩ := List.nodup_cons.mp hrows
      rcases List.sublist_cons_iff.mp hxs with hx | ⟨xs, rfl, hx⟩ <;>
        rcases List.sublist_cons_iff.mp hys with hy | ⟨ys, rfl, hy⟩
      · exact ih hrows hx hy h
      · exact absurd (hx.subset ((h r).mpr List.mem_cons_self)) hr
      · exact absurd (hy.subset ((h r).mp List.mem_cons_self)) hr
      · have hrest : ∀ q, q ∈ xs ↔ q ∈ ys := by
          intro q
          have hq := h q
          rw [List.mem_cons, List.mem_cons] at hq
          constructor
          · intro hin
            have hne : q ≠ r := fun heq => hr (heq ▸ hx.subset hin)
            exact (hq.mp (Or.inr hin)).resolve_left hne
          · intro hin
            have hne : q ≠ r := fun heq => hr (heq ▸ hy.subset hin)
            exact (hq.mpr (Or.inr hin)).resolve_left hne
        rw [ih hrows hx hy hrest]

/-! ### Plans -/

/-- `hnsw.ef_search` as it stands by default; nothing sets it. -/
def EF_SEARCH : ℕ := 40

/-- What `assertion_hnsw` indexes: each live and visible row that has an embedding, whoever's. -/
def partial_index (db : Db) : List AssertionRow :=
  db.assertions.filter fun r => r.valid_to.isNone && r.visible && r.embedding.isSome

/-- How `ORDER BY distance LIMIT k` is answered. -/
inductive Plan where
  /-- Every row the clauses admit, with its exact distance. -/
  | exact
  /-- The rows an index scan found, and of these the ones the other clauses admit. -/
  | hnsw (scan : List AssertionRow)

/-- A scan finds at most `ef_search` rows of its index. They need not be the nearest. -/
def Plan.Conforms (db : Db) : Plan → Prop
  | .exact => True
  | .hnsw scan => scan.Nodup ∧ scan ⊆ partial_index db ∧ scan.length ≤ EF_SEARCH

/-- The scan found as many as it may. -/
def Plan.Full (db : Db) : Plan → Prop
  | .exact => True
  | .hnsw scan => scan.length = min EF_SEARCH (partial_index db).length

/-- Rows of one distance come in the table's order, as they do in an exact answer. -/
def Plan.InOrder (db : Db) : Plan → Prop
  | .exact => True
  | .hnsw scan => scan.Sublist (partial_index db)

instance (db : Db) : (plan : Plan) → Decidable (plan.Conforms db)
  | .exact => inferInstanceAs (Decidable True)
  | .hnsw scan => inferInstanceAs (Decidable (scan.Nodup ∧ (∀ r ∈ scan, r ∈ partial_index db) ∧ _ ≤ _))

/-- The table as far as the read gets to see it. -/
def Plan.view (db : Db) : Plan → Db
  | .exact => db
  | .hnsw scan => { db with assertions := scan }

/-- How a read of this `as_of` is answered: only one of now implies the index's condition. -/
def Plan.as_of (plan : Plan) : Option Time → Plan
  | none => plan
  | some _ => .exact

/-- `PgVectorStore.search`, answered by a plan. -/
def Plan.search (plan : Plan) (cast : UuidCast) (deps : Deps) (tenant : TenantId) (ns : Namespace)
    (vector : List ℚ) (k : ℕ) (filters : List (String × String)) (as_of : Option Time) (db : Db) :
    Except Exc (List ScoredAssertion) :=
  PgVectorStore.search cast deps tenant ns vector k filters as_of ((plan.as_of as_of).view db)

variable {cast : UuidCast} {deps : Deps} {uuid : Uuid5} {tenant : TenantId} {ns : Namespace}
  {as_of : Option Time} {db : Db} {r : AssertionRow} {plan : Plan} {clauses fs : List Clause}

theorem conforms_as_of (h : plan.Conforms db) : (plan.as_of as_of).Conforms db := by
  cases as_of with
  | none => exact h
  | some t => trivial

theorem in_order_as_of (h : plan.InOrder db) : (plan.as_of as_of).InOrder db := by
  cases as_of with
  | none => exact h
  | some t => trivial

theorem Plan.view_subset (h : plan.Conforms db) : (plan.view db).assertions ⊆ db.assertions := by
  cases plan with
  | exact => exact List.Subset.refl _
  | hnsw scan => exact fun r hr => (List.mem_filter.mp (h.2.1 hr)).1

theorem Plan.view_length (h : plan.Conforms db) :
    (plan.view db).assertions.length ≤ db.assertions.length := by
  cases plan with
  | exact => exact le_rfl
  | hnsw scan => exact (h.1.subperm (Plan.view_subset h)).length_le

theorem Plan.view_nodup (hids : db.ids.Nodup) (h : plan.Conforms db) : (plan.view db).assertions.Nodup := by
  cases plan with
  | exact => exact List.Nodup.of_map _ hids
  | hnsw scan => exact h.1

/-- A scan narrows the rows and leaves the citations. -/
@[simp] theorem hydrate_view : hydrate (plan.view db) r = hydrate db r := by
  cases plan <;> rfl

theorem mem_selected_view (h : plan.Conforms db) : r ∈ selected cast tenant clauses (plan.view db) ↔
    r ∈ selected cast tenant clauses db ∧ r ∈ (plan.view db).assertions := by
  rw [mem_selected, mem_selected]
  constructor
  · rintro ⟨hr, hrest⟩
    exact ⟨⟨Plan.view_subset h hr, hrest⟩, hr⟩
  · rintro ⟨⟨-, hrest⟩, hr⟩
    exact ⟨hr, hrest⟩

theorem selected_view_length (h : plan.Conforms db) : (selected cast tenant clauses (plan.view db)).length ≤
    (selected cast tenant clauses db).length := by
  cases plan with
  | exact => exact le_rfl
  | hnsw scan =>
      exact ((h.1.filter _).subperm fun r hr => ((mem_selected_view h).mp hr).1).length_le

theorem selected_view_sublist (h : plan.InOrder db) :
    (selected cast tenant clauses (plan.view db)).Sublist (selected cast tenant clauses db) := by
  cases plan with
  | exact => exact List.Sublist.refl _
  | hnsw scan => exact (h.trans List.filter_sublist).filter _

/-- A row that a read of now admits is in the index. -/
theorem selected_indexed (h : r ∈ selected cast tenant (ALWAYS ns ++ .live :: fs) db) :
    r ∈ partial_index db := by
  obtain ⟨hr, -, hall⟩ := mem_selected.mp h
  have hvisible := hall .visible (by simp [ALWAYS])
  have hembedded := hall .embedded (by simp [ALWAYS])
  have hlive := hall .live (by simp)
  simp only [Clause.holds] at hvisible hembedded hlive
  exact List.mem_filter.mpr ⟨hr, by simp [hvisible, hembedded, hlive]⟩

theorem partial_index_nodup (h : db.ids.Nodup) : (partial_index db).Nodup :=
  (List.Nodup.of_map _ h).filter _

/-- A scan that finds as many rows as it may of an index of no more finds them all. -/
theorem Plan.view_covers (hplan : plan.Conforms db) (hfull : plan.Full db)
    (hroom : (partial_index db).length ≤ EF_SEARCH) : partial_index db ⊆ (plan.view db).assertions := by
  cases plan with
  | exact => exact List.filter_subset_self _
  | hnsw scan => exact scan_covers hplan.1 hplan.2.1 hfull hroom

/-- Of an index with more rows than a scan takes, one can be missed. -/
theorem exists_plan_missing (h : db.ids.Nodup) (hr : r ∈ partial_index db)
    (hmany : EF_SEARCH < (partial_index db).length) :
    ∃ plan : Plan, plan.Conforms db ∧ plan.InOrder db ∧ plan.Full db ∧ r ∉ (plan.view db).assertions := by
  obtain ⟨scan, hsub, hlen, hmissed⟩ := exists_scan_missing (partial_index_nodup h) hr hmany
  exact ⟨.hnsw scan, ⟨(partial_index_nodup h).sublist hsub, hsub.subset, by omega⟩, hsub, hlen, hmissed⟩

/-- An index has no more rows than a scan takes where each full scan comes to some one of them. -/
theorem room_of_covered (h : db.ids.Nodup) (hr : r ∈ partial_index db)
    (hall : ∀ plan : Plan, plan.Conforms db → plan.InOrder db → plan.Full db →
      r ∈ (plan.view db).assertions) : (partial_index db).length ≤ EF_SEARCH := by
  by_contra hmany
  obtain ⟨plan, hplan, horder, hfull, hmissed⟩ := exists_plan_missing h hr (Nat.lt_of_not_le hmany)
  exact hmissed (hall plan hplan horder hfull)

/-- Every scan that finds as many rows as it may comes to each row of a kind, if and only if there is none
    in the index or the index has no more than `ef_search`. -/
theorem full_scans_cover_iff {p : AssertionRow → Prop} (h : db.ids.Nodup) :
    (∀ plan : Plan, plan.Conforms db → plan.Full db → ∀ r ∈ partial_index db, p r →
      r ∈ (plan.view db).assertions) ↔
      ((∃ r ∈ partial_index db, p r) → (partial_index db).length ≤ EF_SEARCH) := by
  constructor
  · rintro hall ⟨r, hr, hp⟩
    exact room_of_covered h hr fun plan hplan _ hfull => hall plan hplan hfull r hr hp
  · intro hroom plan hplan hfull r hr hp
    exact Plan.view_covers hplan hfull (hroom ⟨r, hr, hp⟩) hr

variable (deps tenant) in
/-- CORRECT: a read answers with the rows its clauses admit of those its plan comes to. -/
theorem plan_search_rows (vector : List ℚ) (k : ℕ) {filters : List (String × String)} (hwf : Wf uuid db)
    (hvalues : ∀ r ∈ db.assertions, (ObjectValue.ofJson r.object_json).isSome = true)
    (hplan : (plan.as_of as_of).Conforms db) (hclauses : bound_clauses cast ns filters as_of = .ok clauses) :
    ∃ hits, plan.search cast deps tenant ns vector k filters as_of db = .ok hits ∧
      hits.map (fun hit => hit.assertion.assertion_id) =
        (nearest_rows deps vector k
          (selected cast tenant clauses ((plan.as_of as_of).view db))).map AssertionRow.id := by
  refine search_ids (fun r hr => ?_) hclauses
  have hrow := (mem_selected.mp ((mem_selected_view hplan).mp hr).1).1
  rw [hydrate_view]
  exact hydrate_legible hwf hrow (hvalues r hrow)

end GuardMem
