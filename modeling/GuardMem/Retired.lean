import GuardMem.Clinical
import GuardMem.Memory.Plans

/-! What `search` and `retired` leave out between them.

    The retired read swaps one clause of a read of now for its complement and keeps the others, the one
    on `visible` and the one on the embedding included; the read of now may be answered from an index scan.
    CORRECT: the two reads account for every row exactly where each retired row is visible, each visible
    row has an embedding and the scan comes to each live one (`rows_accounted_iff`); a row superseded
    before its relay pass is in neither (`lost_before_relay`). -/

namespace GuardMem

variable (cast : UuidCast) (deps : Deps) (tenant : TenantId) (ns : Namespace)
  (filters : List (String × String))

/-- The row has the value that one filter names. -/
def matches_filter (r : AssertionRow) (filter : String × String) : Bool :=
  (filter.1 == "subject_id" && cast filter.2 == some r.subject_id) ||
    (filter.1 == "predicate" && r.predicate == filter.2)

/-- An unretracted row of the namespace that the filters match. -/
def matching (r : AssertionRow) : Bool :=
  r.tenant_id == tenant && r.namespace == ns && r.retracted_at.isNone &&
    filters.all (matches_filter cast r)

/-- What the two answers are to account for. -/
structure Accounting (db : Db) (hits : List ScoredAssertion) (retired : List StoredAssertion) : Prop where
  /-- `retired` has the matching rows whose `valid_to` is set, each once. -/
  complement : (retired.map StoredAssertion.assertion_id).Perm
    ((db.assertions.filter fun r => matching cast tenant ns filters r && r.valid_to.isSome).map
      AssertionRow.id)
  newest_first : retired.Pairwise fun a b => ∀ s ∈ b.valid_to, ∀ t ∈ a.valid_to, s ≤ t
  disjoint : ∀ a ∈ retired, ∀ hit ∈ hits, hit.assertion.assertion_id ≠ a.assertion_id
  covered : ∀ r ∈ db.assertions, matching cast tenant ns filters r = true →
    (r.valid_to = none ∧ r.visible = false) ∨
      r.id ∈ hits.map (fun hit => hit.assertion.assertion_id) ∨
      r.id ∈ retired.map StoredAssertion.assertion_id

/-- The two reads refuse a filter alike, and what they answer accounts for every row. -/
def RowsAccounted (plan : Plan) (db : Db) : Prop :=
  ∀ vector k limit, db.assertions.length ≤ k → db.assertions.length ≤ limit →
    (∃ e, plan.search cast deps tenant ns vector k filters none db = .error e ∧
      PgVectorStore.retired cast tenant ns filters limit db = .error e) ∨
    ∃ hits retired, plan.search cast deps tenant ns vector k filters none db = .ok hits ∧
      PgVectorStore.retired cast tenant ns filters limit db = .ok retired ∧
      Accounting cast tenant ns filters db hits retired

/-- A matching row that is retired has been shown, and one that is shown can be ranked. -/
def Retrievable (db : Db) : Prop :=
  ∀ r ∈ db.assertions, matching cast tenant ns filters r = true →
    (r.valid_to ≠ none → r.visible = true) ∧ (r.visible = true → r.embedding ≠ none)

/-- The plan comes to each matching row of the index. -/
def Plan.Comes (plan : Plan) (db : Db) : Prop :=
  ∀ r ∈ partial_index db, matching cast tenant ns filters r = true → r ∈ (plan.view db).assertions

/-- A store whose constraints hold and whose values can be read back. -/
structure ValueStore (uuid : Uuid5) extends Db where
  wf : Wf uuid toDb
  legible : ∀ r ∈ assertions, (ObjectValue.ofJson r.object_json).isSome = true

/-! ### The clauses of the two reads -/

/-- What the filters bind. -/
def bound_filters : Except Exc (List Clause) := do
  collect (Clause.bind cast) (← collect filter_clause filters)

variable {cast deps tenant ns filters} {uuid : Uuid5} {db : Db} {r : AssertionRow} {fs : List Clause}
  {limit : ℕ} {plan : Plan}

theorem filter_clause_ok {filter : String × String} {clause : Clause}
    (h : filter_clause filter = .ok clause) :
    (filter.1 = "subject_id" ∧ clause = .subject_id filter.2) ∨
      (filter.1 = "predicate" ∧ clause = .predicate filter.2) := by
  obtain ⟨key, value⟩ := filter
  unfold filter_clause at h
  split at h
  · next heq => cases heq; exact Or.inl ⟨rfl, (Except.ok.inj h).symm⟩
  · next heq => cases heq; exact Or.inr ⟨rfl, (Except.ok.inj h).symm⟩
  · cases h

theorem filter_clause_holds {filter : String × String} {clause : Clause}
    (h : filter_clause filter = .ok clause) : clause.holds cast r = matches_filter cast r filter := by
  rcases filter_clause_ok h with ⟨hkey, rfl⟩ | ⟨hkey, rfl⟩
  · simp [matches_filter, Clause.holds, hkey]
  · simp [matches_filter, Clause.holds, hkey]

/-- A filter that some row meets is one of the vocabulary, and its value can be bound. -/
theorem filter_clause_of_match {filter : String × String} (h : matches_filter cast r filter = true) :
    ∃ clause, filter_clause filter = .ok clause ∧ clause.bind cast = .ok clause := by
  obtain ⟨key, value⟩ := filter
  simp only [matches_filter, Bool.or_eq_true, Bool.and_eq_true, beq_iff_eq] at h
  rcases h with ⟨rfl, hcast⟩ | ⟨rfl, -⟩
  · exact ⟨.subject_id value, rfl, by simp [Clause.bind, hcast]⟩
  · exact ⟨.predicate value, rfl, rfl⟩

/-- The filters' clauses ask of a row what the filters say. -/
theorem bound_filters_hold (h : bound_filters cast filters = .ok fs) :
    fs.all (Clause.holds cast r) = filters.all (matches_filter cast r) := by
  simp only [bound_filters, bind_ok] at h
  obtain ⟨clauses, hclauses, hbind⟩ := h
  obtain rfl : clauses = fs :=
    List.forall₂_eq_eq_eq ▸ (collect_ok.mp hbind).imp fun _ _ hc => (bind_clause_ok hc).symm
  have hall := collect_ok.mp hclauses
  clear hclauses hbind
  induction hall with
  | nil => rfl
  | cons hhead _ ih => rw [List.all_cons, List.all_cons, filter_clause_holds hhead, ih]

/-- Filters that each make a clause that can be bound are bound. -/
theorem bound_filters_total (h : ∀ filter ∈ filters, ∃ clause, filter_clause filter = .ok clause ∧
    clause.bind cast = .ok clause) : ∃ fs, bound_filters cast filters = .ok fs := by
  obtain ⟨clauses, hclauses⟩ := collect_total fun f hf => (h f hf).imp fun _ h => h.1
  have hbind : ∀ c ∈ clauses, ∃ c', c.bind cast = .ok c' := by
    intro c hc
    obtain ⟨f, hf, hfc⟩ := collect_mem hclauses c hc
    obtain ⟨c', hc', hbound⟩ := h f hf
    obtain rfl : c' = c := Except.ok.inj (hc'.symm.trans hfc)
    exact ⟨_, hbound⟩
  obtain ⟨bound, hbound⟩ := collect_total hbind
  exact ⟨bound, bind_ok.mpr ⟨clauses, hclauses, hbound⟩⟩

/-- Filters that are refused are met by no row. -/
theorem bound_filters_error {e : Exc} (h : bound_filters cast filters = .error e) :
    filters.all (matches_filter cast r) = false := by
  refine Bool.eq_false_iff.mpr fun hall => ?_
  obtain ⟨fs, hfs⟩ := bound_filters_total fun f hf =>
    filter_clause_of_match (List.all_eq_true.mp hall f hf)
  rw [hfs] at h
  cases h

/-- Binding what every read asks changes nothing and refuses nothing. -/
theorem collect_bind_always {clause : Clause} (h : clause.bind cast = .ok clause) :
    collect (Clause.bind cast) (ALWAYS ns ++ clause :: fs) =
      (collect (Clause.bind cast) fs >>= fun bound => .ok (ALWAYS ns ++ clause :: bound)) := by
  have hcons : ∀ {c : Clause} {cs : List Clause}, c.bind cast = .ok c →
      collect (Clause.bind cast) (c :: cs) =
        (collect (Clause.bind cast) cs >>= fun bound => .ok (c :: bound)) := by
    intro c cs hc
    rw [collect, hc]
    rfl
  simp only [ALWAYS, List.cons_append, List.nil_append]
  rw [hcons rfl, hcons rfl, hcons rfl, hcons rfl, hcons h]
  cases collect (Clause.bind cast) fs <;> rfl

theorem bound_clauses_eq {as_of : Option Time} : bound_clauses cast ns filters as_of =
    (bound_filters cast filters >>= fun fs => .ok (ALWAYS ns ++ temporal as_of :: fs)) := by
  rw [bound_clauses, predicates, bound_filters]
  cases collect filter_clause filters with
  | error e => rfl
  | ok fs => cases as_of <;> exact collect_bind_always rfl

/-- The filters leave the live clause the only one of its kind, and it alone is replaced. -/
theorem retired_clauses_eq (h : collect filter_clause filters = .ok fs) :
    retired_clauses (ALWAYS ns ++ .live :: fs) = .ok (ALWAYS ns ++ .retired :: fs) := by
  have hother : ∀ clause ∈ fs, clause ≠ .live := by
    intro clause hclause
    obtain ⟨f, -, hf⟩ := collect_mem h clause hclause
    rcases filter_clause_ok hf with ⟨-, rfl⟩ | ⟨-, rfl⟩ <;> simp
  have hkeep : fs.map (fun clause => if clause = .live then .retired else clause) = fs := by
    conv_rhs => rw [← List.map_id fs]
    exact List.map_congr_left fun clause hclause => if_neg (hother clause hclause)
  rw [retired_clauses, if_pos (by simp), List.map_append, List.map_cons, hkeep]
  rfl

/-- The retired read in one step, as the filters leave it. -/
theorem retired_eq : PgVectorStore.retired cast tenant ns filters limit db =
    (bound_filters cast filters >>= fun fs => collect (hydrate db)
      (latest_rows limit (selected cast tenant (ALWAYS ns ++ .retired :: fs) db))) := by
  rw [PgVectorStore.retired, predicates, bound_filters]
  cases h : collect filter_clause filters with
  | error e => rfl
  | ok fs =>
      change (retired_clauses (ALWAYS ns ++ .live :: fs) >>= fun clauses =>
          collect (Clause.bind cast) clauses >>= fun bound =>
            collect (hydrate db) (latest_rows limit (selected cast tenant bound db))) =
        (collect (Clause.bind cast) fs >>= fun fs => collect (hydrate db)
          (latest_rows limit (selected cast tenant (ALWAYS ns ++ .retired :: fs) db)))
      rw [retired_clauses_eq h]
      change (collect (Clause.bind cast) (ALWAYS ns ++ .retired :: fs) >>= fun bound =>
        collect (hydrate db) (latest_rows limit (selected cast tenant bound db))) = _
      rw [collect_bind_always rfl]
      cases collect (Clause.bind cast) fs <;> rfl

/-! ### The answers -/

theorem selected_live (h : bound_filters cast filters = .ok fs) :
    selected cast tenant (ALWAYS ns ++ .live :: fs) db = db.assertions.filter fun r =>
      matching cast tenant ns filters r && (r.valid_to.isNone && r.visible && r.embedding.isSome) := by
  refine List.filter_congr fun r _ => ?_
  simp only [ALWAYS, List.cons_append, List.nil_append, List.all_cons, Clause.holds,
    bound_filters_hold h, matching]
  ac_rfl

theorem selected_retired (h : bound_filters cast filters = .ok fs) :
    selected cast tenant (ALWAYS ns ++ .retired :: fs) db = db.assertions.filter fun r =>
      matching cast tenant ns filters r && (r.valid_to.isSome && r.visible && r.embedding.isSome) := by
  refine List.filter_congr fun r _ => ?_
  simp only [ALWAYS, List.cons_append, List.nil_append, List.all_cons, Clause.holds,
    bound_filters_hold h, matching]
  ac_rfl

theorem latest_rows_perm {rows : List AssertionRow} (h : rows.length ≤ limit) :
    (latest_rows limit rows).Perm rows := by
  rw [latest_rows, List.take_of_length_le (by rwa [List.length_insertionSort])]
  exact List.perm_insertionSort _ _

theorem latest_rows_sorted {rows : List AssertionRow} : (latest_rows limit rows).Pairwise
    fun a b => b.valid_to.getD 0 ≤ a.valid_to.getD 0 := by
  have : Std.Total fun a b : AssertionRow => b.valid_to.getD 0 ≤ a.valid_to.getD 0 :=
    ⟨fun a b => le_total _ _⟩
  have : IsTrans AssertionRow fun a b => b.valid_to.getD 0 ≤ a.valid_to.getD 0 :=
    ⟨fun _ _ _ hab hbc => hbc.trans hab⟩
  exact (List.pairwise_insertionSort _ _).sublist (List.take_sublist _ _)

variable (tenant ns limit) in
/-- The retired read answers with the rows its clauses admit, the last retired first. -/
theorem retired_rows (s : ValueStore uuid) (h : bound_filters cast filters = .ok fs) :
    ∃ retired, PgVectorStore.retired cast tenant ns filters limit s.toDb = .ok retired ∧
      List.Forall₂ (fun r a => hydrate s.toDb r = .ok a)
        (latest_rows limit (selected cast tenant (ALWAYS ns ++ .retired :: fs) s.toDb)) retired := by
  have hread : ∀ r ∈ latest_rows limit (selected cast tenant (ALWAYS ns ++ .retired :: fs) s.toDb),
      ∃ a, hydrate s.toDb r = .ok a := by
    intro r hr
    have hrow := (mem_selected.mp ((List.mem_insertionSort _).mp (List.mem_of_mem_take hr))).1
    exact hydrate_legible s.wf hrow (s.legible r hrow)
  obtain ⟨retired, hretired⟩ := collect_total hread
  refine ⟨retired, ?_, collect_ok.mp hretired⟩
  rw [retired_eq, h]
  exact hretired

theorem hydrate_id {a : StoredAssertion} (h : hydrate db r = .ok a) :
    a.assertion_id = r.id ∧ a.valid_to = r.valid_to := by
  obtain ⟨_, -, hrow⟩ := bind_ok.mp h
  obtain ⟨hid, -, -, -, -, -, -, hto, -⟩ := assertion_from_row_ok hrow
  exact ⟨hid, hto⟩

/-- The answer's ids and retirements are those of the rows read, in their order. -/
theorem hydrated_columns {rows : List AssertionRow} {retired : List StoredAssertion}
    (h : List.Forall₂ (fun r a => hydrate db r = .ok a) rows retired) :
    retired.map StoredAssertion.assertion_id = rows.map AssertionRow.id ∧
      retired.map StoredAssertion.valid_to = rows.map AssertionRow.valid_to := by
  induction h with
  | nil => exact ⟨rfl, rfl⟩
  | cons hhead _ ih =>
      obtain ⟨hid, hto⟩ := hydrate_id hhead
      exact ⟨congrArg₂ List.cons hid ih.1, congrArg₂ List.cons hto ih.2⟩

theorem newest_first {rows : List AssertionRow} {retired : List StoredAssertion}
    (h : List.Forall₂ (fun r a => hydrate db r = .ok a) (latest_rows limit rows) retired) :
    retired.Pairwise fun a b => ∀ s ∈ b.valid_to, ∀ t ∈ a.valid_to, s ≤ t := by
  refine (List.pairwise_map (R := fun x y : Option Time => ∀ s ∈ y, ∀ t ∈ x, s ≤ t)).mp ?_
  rw [(hydrated_columns h).2, List.pairwise_map]
  refine latest_rows_sorted.imp fun {a b} hle s hs t ht => ?_
  rwa [Option.mem_def.mp hs, Option.mem_def.mp ht] at hle

/-- An id tells the rows of a store apart. -/
theorem id_mem_filter (s : ValueStore uuid) {rows : List AssertionRow} {p : AssertionRow → Bool}
    (hrows : rows ⊆ s.assertions) (hr : r ∈ s.assertions) :
    r.id ∈ (rows.filter p).map AssertionRow.id ↔ r ∈ rows ∧ p r = true := by
  constructor
  · intro h
    obtain ⟨q, hq, hid⟩ := List.mem_map.mp h
    obtain ⟨hq, hp⟩ := List.mem_filter.mp hq
    obtain rfl := s.wf.eq_of_id (hrows hq) hr hid
    exact ⟨hq, hp⟩
  · exact fun h => List.mem_map_of_mem (List.mem_filter.mpr h)

section

variable (s : ValueStore uuid) (hplan : plan.Conforms s.toDb) {hits : List ScoredAssertion}
  {retired : List StoredAssertion}
  (hhits : (hits.map fun hit => hit.assertion.assertion_id).Perm
    (((plan.view s.toDb).assertions.filter fun r => matching cast tenant ns filters r &&
      (r.valid_to.isNone && r.visible && r.embedding.isSome)).map AssertionRow.id))
  (hretired : (retired.map StoredAssertion.assertion_id).Perm
    ((s.assertions.filter fun r => matching cast tenant ns filters r &&
      (r.valid_to.isSome && r.visible && r.embedding.isSome)).map AssertionRow.id))

include hplan hhits in
theorem id_mem_hits (hr : r ∈ s.assertions) : r.id ∈ hits.map (fun hit => hit.assertion.assertion_id) ↔
    r ∈ (plan.view s.toDb).assertions ∧ (matching cast tenant ns filters r &&
      (r.valid_to.isNone && r.visible && r.embedding.isSome)) = true :=
  hhits.mem_iff.trans (id_mem_filter s (Plan.view_subset hplan) hr)

include hretired in
theorem id_mem_retired (hr : r ∈ s.assertions) : r.id ∈ retired.map StoredAssertion.assertion_id ↔
    (matching cast tenant ns filters r && (r.valid_to.isSome && r.visible && r.embedding.isSome)) = true :=
  (hretired.mem_iff.trans (id_mem_filter s (List.Subset.refl _) hr)).trans (and_iff_right hr)

include hplan hhits hretired

/-- Answers that account for the table are of a store whose retired rows were shown and whose shown rows the
    plan comes to. -/
theorem Accounting.retrievable (h : Accounting cast tenant ns filters s.toDb hits retired) :
    Retrievable cast tenant ns filters s.toDb ∧ plan.Comes cast tenant ns filters s.toDb := by
  have hstopped : ∀ r ∈ s.assertions, matching cast tenant ns filters r = true → r.valid_to ≠ none →
      r.visible = true ∧ r.embedding ≠ none := by
    intro r hr hmatch hto
    have hin := h.complement.mem_iff.mpr ((id_mem_filter s (List.Subset.refl _) hr).mpr ⟨hr, by
      simp [hmatch, Option.isSome_iff_ne_none.mpr hto]⟩)
    have hall := (id_mem_retired s hretired hr).mp hin
    simp only [Bool.and_eq_true, Option.isSome_iff_ne_none] at hall
    exact ⟨hall.2.1.2, hall.2.2⟩
  have hlive : ∀ r ∈ s.assertions, matching cast tenant ns filters r = true → r.valid_to = none →
      r.visible = true → r ∈ (plan.view s.toDb).assertions ∧ r.embedding ≠ none := by
    intro r hr hmatch hto hvisible
    rcases h.covered r hr hmatch with ⟨-, hno⟩ | hin | hin
    · rw [hvisible] at hno
      cases hno
    · obtain ⟨hview, hall⟩ := (id_mem_hits s hplan hhits hr).mp hin
      simp only [Bool.and_eq_true, Option.isSome_iff_ne_none] at hall
      exact ⟨hview, hall.2.2⟩
    · have hall := (id_mem_retired s hretired hr).mp hin
      simp [hto] at hall
  refine ⟨fun r hr hmatch => ⟨fun hto => (hstopped r hr hmatch hto).1, fun hvisible => ?_⟩,
    fun r hindexed hmatch => ?_⟩
  · by_cases hto : r.valid_to = none
    · exact (hlive r hr hmatch hto hvisible).2
    · exact (hstopped r hr hmatch hto).2
  · obtain ⟨hr, hall⟩ := List.mem_filter.mp hindexed
    simp only [Bool.and_eq_true, Option.isNone_iff_eq_none] at hall
    exact (hlive r hr hmatch hall.1.1 hall.1.2).1

/-- And of such a store they do. -/
theorem accounting_of_retrievable (h : Retrievable cast tenant ns filters s.toDb)
    (hcomes : plan.Comes cast tenant ns filters s.toDb)
    (hsorted : retired.Pairwise fun a b => ∀ s ∈ b.valid_to, ∀ t ∈ a.valid_to, s ≤ t) :
    Accounting cast tenant ns filters s.toDb hits retired := by
  refine ⟨?_, hsorted, fun a ha hit hhit heq => ?_, fun r hr hmatch => ?_⟩
  · refine hretired.trans (List.Perm.of_eq (congrArg _ (List.filter_congr fun r hr => ?_)))
    cases hmatch : matching cast tenant ns filters r with
    | false => rfl
    | true =>
        rcases hto : r.valid_to with _ | t
        · rfl
        · have hvisible := (h r hr hmatch).1 (by simp [hto])
          have hembedded := (h r hr hmatch).2 hvisible
          simp [hvisible, Option.isSome_iff_ne_none.mpr hembedded]
  · have hin := hhits.mem_iff.mp (List.mem_map_of_mem hhit)
    obtain ⟨r, hr, hid⟩ := List.mem_map.mp hin
    obtain ⟨hr, hlive⟩ := List.mem_filter.mp hr
    have hstopped := (id_mem_retired s hretired (Plan.view_subset hplan hr)).mp
      (hid.trans heq ▸ List.mem_map_of_mem ha)
    simp only [Bool.and_eq_true, Option.isNone_iff_eq_none] at hlive
    simp [hlive.2.1.1] at hstopped
  · rcases hto : r.valid_to with _ | t
    · cases hvisible : r.visible with
      | false => exact Or.inl ⟨rfl, rfl⟩
      | true =>
          have hembedded := Option.isSome_iff_ne_none.mpr ((h r hr hmatch).2 hvisible)
          have hindexed : r ∈ partial_index s.toDb :=
            List.mem_filter.mpr ⟨hr, by simp [hto, hvisible, hembedded]⟩
          refine Or.inr (Or.inl ((id_mem_hits s hplan hhits hr).mpr ⟨hcomes r hindexed hmatch, ?_⟩))
          simp [hmatch, hto, hvisible, hembedded]
    · have hvisible := (h r hr hmatch).1 (by simp [hto])
      have hembedded := (h r hr hmatch).2 hvisible
      refine Or.inr (Or.inr ((id_mem_retired s hretired hr).mpr ?_))
      simp [hmatch, hto, hvisible, Option.isSome_iff_ne_none.mpr hembedded]

/-- The rows of two answers account for the table exactly where the clauses kept from the read of now
    hold of every row they should not be asked of, and that read comes to each row it is asked for. -/
theorem accounting_iff (hsorted : retired.Pairwise fun a b => ∀ s ∈ b.valid_to, ∀ t ∈ a.valid_to, s ≤ t) :
    Accounting cast tenant ns filters s.toDb hits retired ↔
      Retrievable cast tenant ns filters s.toDb ∧ plan.Comes cast tenant ns filters s.toDb :=
  ⟨fun h => h.retrievable s hplan hhits hretired,
    fun h => accounting_of_retrievable s hplan hhits hretired h.1 h.2 hsorted⟩

end

/-- Under one plan. -/
theorem accounted_of_plan (deps : Deps) (s : ValueStore uuid) (hplan : plan.Conforms s.toDb) :
    RowsAccounted cast deps tenant ns filters plan s.toDb ↔
      Retrievable cast tenant ns filters s.toDb ∧ plan.Comes cast tenant ns filters s.toDb := by
  cases hfilters : bound_filters cast filters with
  | error e =>
      have hnone : ∀ r, matching cast tenant ns filters r = false := fun r => by
        simp [matching, bound_filters_error hfilters]
      refine iff_of_true (fun vector k limit _ _ => Or.inl ⟨e, ?_, ?_⟩)
        ⟨fun r _ hmatch => by simp [hnone] at hmatch, fun r _ hmatch => by simp [hnone] at hmatch⟩
      · rw [Plan.search, PgVectorStore.search, bound_clauses_eq, hfilters]
        rfl
      · rw [retired_eq, hfilters]
        rfl
  | ok fs =>
      have hclauses : bound_clauses cast ns filters none = .ok (ALWAYS ns ++ .live :: fs) := by
        rw [bound_clauses_eq, hfilters]
        rfl
      have hanswers : ∀ vector k limit, s.assertions.length ≤ k → s.assertions.length ≤ limit →
          ∃ hits retired, plan.search cast deps tenant ns vector k filters none s.toDb = .ok hits ∧
            PgVectorStore.retired cast tenant ns filters limit s.toDb = .ok retired ∧
            (Accounting cast tenant ns filters s.toDb hits retired ↔
              Retrievable cast tenant ns filters s.toDb ∧ plan.Comes cast tenant ns filters s.toDb) := by
        intro vector k limit hk hlimit
        have hnow : (plan.as_of none).Conforms s.toDb := hplan
        obtain ⟨hits, hhits, hids⟩ := plan_search_rows deps tenant vector k s.wf s.legible hnow hclauses
        obtain ⟨retired, hretired, hall⟩ := retired_rows tenant ns limit s hfilters
        rw [Plan.as_of, selected_live hfilters] at hids
        rw [selected_retired hfilters] at hall
        refine ⟨hits, retired, hhits, hretired, accounting_iff s hplan ?_ ?_ ?_⟩
        · have hroom := ((List.length_filter_le (fun r => matching cast tenant ns filters r &&
            (r.valid_to.isNone && r.visible && r.embedding.isSome)) (plan.view s.toDb).assertions).trans
              (Plan.view_length hplan)).trans hk
          rw [hids, nearest_rows, List.take_of_length_le (by rwa [List.length_insertionSort])]
          exact (List.perm_insertionSort _ _).map _
        · have hroom := (List.length_filter_le (fun r => matching cast tenant ns filters r &&
            (r.valid_to.isSome && r.visible && r.embedding.isSome)) s.assertions).trans hlimit
          rw [(hydrated_columns hall).1]
          exact (latest_rows_perm hroom).map _
        · exact newest_first hall
      constructor
      · intro h
        obtain ⟨hits, retired, hhits, hretired, hiff⟩ := hanswers [] _ _ le_rfl le_rfl
        rcases h [] _ _ le_rfl le_rfl with ⟨e, he, -⟩ | ⟨hits', retired', hhits', hretired', haccount⟩
        · rw [hhits] at he
          cases he
        · obtain rfl := Except.ok.inj (hhits.symm.trans hhits')
          obtain rfl := Except.ok.inj (hretired.symm.trans hretired')
          exact hiff.mp haccount
      · intro h vector k limit hk hlimit
        obtain ⟨hits, retired, hhits, hretired, hiff⟩ := hanswers vector k limit hk hlimit
        exact Or.inr ⟨hits, retired, hhits, hretired, hiff.mpr h⟩

/-- CORRECT: in every state, for every namespace and filter, the two reads account for every row exactly
    where each matching row that is retired is visible, each that is visible has an embedding, and the plan
    comes to each that is indexed; whatever the index scans, exactly where none is or it has no more rows
    than a scan takes. -/
theorem rows_accounted_iff (cast : UuidCast) (deps : Deps) (tenant : TenantId) (ns : Namespace)
    (filters : List (String × String)) {uuid : Uuid5} (s : ValueStore uuid) :
    (∀ plan : Plan, plan.Conforms s.toDb → (RowsAccounted cast deps tenant ns filters plan s.toDb ↔
      Retrievable cast tenant ns filters s.toDb ∧ plan.Comes cast tenant ns filters s.toDb)) ∧
    ((∀ plan : Plan, plan.Conforms s.toDb → plan.Full s.toDb →
        RowsAccounted cast deps tenant ns filters plan s.toDb) ↔
      Retrievable cast tenant ns filters s.toDb ∧
        ((∃ r ∈ partial_index s.toDb, matching cast tenant ns filters r = true) →
          (partial_index s.toDb).length ≤ EF_SEARCH)) := by
  refine ⟨fun plan hplan => accounted_of_plan deps s hplan, ?_⟩
  rw [← full_scans_cover_iff s.wf.ids_nodup]
  constructor
  · intro h
    have hconforms : Plan.exact.Conforms s.toDb := trivial
    exact ⟨((accounted_of_plan deps s hconforms).mp (h .exact hconforms trivial)).1, fun plan hplan hfull =>
      ((accounted_of_plan deps s hplan).mp (h plan hplan hfull)).2⟩
  · rintro ⟨hrows, hcovers⟩ plan hplan hfull
    exact (accounted_of_plan deps s hplan).mpr ⟨hrows, hcovers plan hplan hfull⟩

namespace Clinical

theorem open_ended {start : Time} : ∀ t ∈ (none : Option Time), start ≤ t := by simp

/-- A patient's language as the store takes it, true from `start`. -/
def stored_language (id : AssertionId) (value : String) (start : Time) : StoredAssertion where
  assertion_id := id
  tenant_id := "clinic"
  «namespace» := "patient:1"
  subject_id := "p1"
  predicate := "preferred_language"
  object := .str value
  confidence := percent 50
  risk := percent 32
  valid_from := start
  recorded_at := start
  provenance := [(language "t" id value start).provenance]
  trace_id := "t"
  sourced := List.cons_ne_nil _ _
  corroborated := Nat.one_pos
  interval_coherent := open_ended

/-- French is written and superseded by German, and no relay has passed. -/
def superseded_early : Except Exc Db := do
  let db ← upsert Clinical.deps "clinic" 20 [stored_language "a" "French" 10, stored_language "b" "German" 30]
    Db.empty
  supersede_in "clinic" "a" "b" 30 db

end Clinical

open Clinical in
/-- The first language is retired and in neither answer. -/
theorem lost_before_relay : ∃ s : ValueStore Clinical.deps.uuid, superseded_early = .ok s.toDb ∧
    ¬ RowsAccounted some Clinical.deps "clinic" "patient:1" [] .exact s.toDb := by
  have hlast : superseded_early.toOption.any (fun db =>
      (db.assertions.all fun r => (ObjectValue.ofJson r.object_json).isSome) && db.assertions.length = 2 &&
      ((PgVectorStore.retired some "clinic" "patient:1" [] 2 db).toOption.any List.isEmpty) &&
      (db.assertions.filter fun r => matching some "clinic" "patient:1" [] r && r.valid_to.isSome).length =
        1) = true := by decide +kernel
  cases hdb : superseded_early with
  | error e => rw [hdb] at hlast; cases hlast
  | ok db =>
      rw [hdb] at hlast
      simp only [Except.toOption, Option.any_some, Bool.and_eq_true, List.all_eq_true,
        decide_eq_true_eq] at hlast
      obtain ⟨⟨⟨hlegible, hlength⟩, hretired⟩, hone⟩ := hlast
      obtain ⟨db₀, hupsert, hsupersede⟩ := bind_ok.mp hdb
      have hwf : Wf Clinical.deps.uuid db := (Wf.upsert hupsert .empty).supersede_in hsupersede
      refine ⟨⟨db, hwf, hlegible⟩, rfl, fun h => ?_⟩
      rcases h [] 2 2 hlength.le hlength.le with ⟨e, -, he⟩ | ⟨hits, retired, -, hok, haccount⟩
      · rw [he] at hretired
        cases hretired
      · rw [hok] at hretired
        obtain rfl : retired = [] := List.isEmpty_iff.mp hretired
        have hsame := haccount.complement.length_eq
        rw [List.length_map, List.length_map, hone] at hsame
        cases hsame

end GuardMem
