import GuardMem.Clinical
import GuardMem.Memory.TypedRows

/-! A stored assertion against the decision it was written on.

    REAL keeps 24 of a double's 53 bits, and no decision is made on so few. CORRECT: what is read is what
    was decided exactly where confidence, risk and every alignment fit REAL, no datetime is naive, no two
    citations share a span and they were captured one after the other, and the ids, the texts and the
    object are ones that their columns give back (`read_as_decided_iff`). -/

namespace GuardMem.TypedRows

open Lib Lib.Json Lib.Table Lib.Ranking

variable {pg : Driver} {uuid : Uuid5} {aid : AssertionId} {p q : Provenance} {ps : List Provenance}
  {a : StoredAssertion}

/-! ### The citations -/

theorem citation_id_eq_iff : citation_id uuid aid p = citation_id uuid aid q ↔
    (p.source_hash, p.source_span) = (q.source_hash, q.source_span) := by
  constructor
  · intro h
    obtain ⟨hhash, hspan⟩ := citation_name_inj (uuid.injective h)
    exact Prod.ext hhash hspan
  · intro h
    obtain ⟨hhash, hspan⟩ := Prod.mk.inj h
    rw [citation_id, citation_id, hhash, hspan]

theorem nodup_ids_iff : (ps.map (citation_id uuid aid)).Nodup ↔
    (ps.map fun p => (p.source_hash, p.source_span)).Nodup := by
  rw [List.Nodup, List.Nodup, List.pairwise_map, List.pairwise_map]
  exact List.Pairwise.iff fun p q => not_congr citation_id_eq_iff

/-- A list comes back, in whatever order, exactly where each citation does and no other order is open. -/
theorem citations_kept_iff :
    (∀ qs : List Provenance, qs.Perm (inserted pg.uuid aid ps) →
      qs.Pairwise (fun p q => pg.timestamptz p.captured_at ≤ pg.timestamptz q.captured_at) →
      (qs.map fun p => p.reread pg) = ps) ↔
    (∀ p ∈ ps, p.reread pg = p) ∧ (ps.map (citation_id pg.uuid aid)).Nodup ∧
      ps.Pairwise fun p q => pg.timestamptz p.captured_at < pg.timestamptz q.captured_at := by
  have hall : (ps.map (citation_id pg.uuid aid)).Nodup → inserted pg.uuid aid ps = ps := fun hnodup =>
    foldl_insertNew_new hnodup (by simp)
  have hself : (∀ p ∈ ps, p.reread pg = p) → ∀ qs : List Provenance, qs.Perm ps →
      (qs.map fun p => p.reread pg) = qs := fun hkept qs hperm =>
    (List.map_congr_left fun p hp => hkept p (hperm.mem_iff.mp hp)).trans qs.map_id'
  constructor
  · intro h
    obtain ⟨qs, hperm, hordered⟩ := exists_ordered (fun p => pg.timestamptz p.captured_at)
      (inserted pg.uuid aid ps)
    have hread := h qs hperm hordered
    have hkept : ∀ p ∈ ps, p.reread pg = p := by
      intro p hp
      rw [← hread] at hp
      obtain ⟨q, -, rfl⟩ := List.mem_map.mp hp
      exact reread_reread
    have hnodup : (ps.map (citation_id pg.uuid aid)).Nodup := by
      rw [← hread, List.map_map]
      exact ((hperm.map _).nodup_iff).mpr (nodup_foldl_insertNew (t := []) List.nodup_nil)
    refine ⟨hkept, hnodup, (ordered_unique_iff hnodup.of_map).mp fun qs hperm hordered => ?_⟩
    rw [← hself hkept qs hperm]
    exact h qs ((hall hnodup).symm ▸ hperm) hordered
  · rintro ⟨hkept, hnodup, hincreasing⟩ qs hperm hordered
    rw [hall hnodup] at hperm
    rw [hself hkept qs hperm]
    exact ordered_eq hincreasing hperm hordered

/-! ### The assertion -/

/-- What is written fits its columns, and comes out of them in one way. -/
structure Fits (pg : Driver) (a : StoredAssertion) (tenant : TenantId) : Prop where
  tenant_id : pg.cast tenant = some a.tenant_id
  subject_id : pg.cast a.subject_id = some a.subject_id
  texts : ∀ s ∈ [a.namespace, a.predicate, a.trace_id], NulFree s
  object : GuardMem.Storable a.object.value ∧ (∀ s ∈ strings a.object.value, NulFree s) ∧
    ∀ kvs, a.object = .dict kvs → ∀ x, .float (.finite x) ∈ kvs.value.scalars → ExactRepr x
  confidence : FloatFormat.Format 24 (-149) a.confidence.1
  risk : FloatFormat.Format 24 (-149) a.risk.1
  valid_from : a.valid_from.aware = true
  citations : ∀ p ∈ a.provenance, p.Taken ∧ FloatFormat.Format 24 (-149) p.alignment.1 ∧
    p.captured_at.aware = true
  spans : (a.provenance.map fun p => (p.source_hash, p.source_span)).Nodup
  order : a.provenance.Pairwise fun p q => p.captured_at.instant < q.captured_at.instant

/-- What is read equals what was written, field by field. -/
theorem same_reread_iff {tenant_id : TenantId} {subject_id : EntityId} {object : PyObject} {visible : Bool}
    {cs : List Provenance} {hcs : cs ≠ []} (h : Built pg a) :
    Same a (a.reread pg tenant_id subject_id object visible cs hcs) ↔
      PyEq object.value a.object.value ∧ tenant_id = a.tenant_id ∧ subject_id = a.subject_id ∧
        real a.confidence.1 = a.confidence.1 ∧ real a.risk.1 = a.risk.1 ∧ a.valid_from.aware = true ∧
        cs = a.provenance := by
  obtain ⟨-, hopen, -, -, -, hrecorded⟩ := h
  refine and_congr_right fun _ => ⟨fun heq => ?_, ?_⟩
  · exact ⟨congrArg StoredAssertion.tenant_id heq, congrArg StoredAssertion.subject_id heq,
      congrArg (fun a => a.confidence.1) heq, congrArg (fun a => a.risk.1) heq,
      utc_eq_iff.mp (congrArg StoredAssertion.valid_from heq), congrArg StoredAssertion.provenance heq⟩
  · rintro ⟨rfl, rfl, hconfidence, hrisk, hfrom, rfl⟩
    cases a
    simp_all [StoredAssertion.reread, utc_eq_iff]

/-- Citations with an offset are in the order of their instants. -/
theorem increasing_iff (h : ∀ p ∈ ps, p.captured_at.aware = true) :
    (ps.Pairwise fun p q => pg.timestamptz p.captured_at < pg.timestamptz q.captured_at) ↔
      ps.Pairwise fun p q => p.captured_at.instant < q.captured_at.instant :=
  List.Pairwise.iff_of_mem fun {p q} hp hq => by
    rw [pg.timestamptz_aware _ (h p hp), pg.timestamptz_aware _ (h q hq)]

/-- Of a list with citations some go in. -/
theorem inserted_ne_nil (h : ps ≠ []) : inserted uuid aid ps ≠ [] := by
  obtain ⟨p, hp⟩ := List.exists_mem_of_ne_nil ps h
  have hkey : citation_id uuid aid p ∈ (inserted uuid aid ps).map (citation_id uuid aid) :=
    keys_foldl_insertNew.mpr (Or.inr (List.mem_map_of_mem hp))
  intro hnil
  rw [hnil] at hkey
  cases hkey

variable (pg)

/-- A fact is read as it was decided exactly where it fits its columns. -/
theorem read_as_decided_iff (recorded_at : Time) (g : GovernedCandidate) (first : Provenance)
    (rest : List Provenance) (tenant : TenantId) :
    let a := (fresh pg.uuid recorded_at g).citing first rest
    ((∃ b, ReadsAs pg a tenant b) ∧ ∀ b, ReadsAs pg a tenant b → Same a b) ↔ Fits pg a tenant := by
  intro a
  have hbuilt : Built pg a := built_fresh first rest
  have hread := fun b => (read_back_iff hbuilt : ReadsAs pg a tenant b ↔ _)
  have hne : ∀ qs : List Provenance, qs.Perm (inserted pg.uuid a.assertion_id a.provenance) →
      (qs.map fun p => p.reread pg) ≠ [] := by
    rintro qs hperm hnil
    obtain rfl := List.map_eq_nil_iff.mp hnil
    exact inserted_ne_nil a.sourced hperm.nil_eq.symm
  obtain ⟨qs₀, hperm₀, hordered₀⟩ := exists_ordered (fun p : Provenance => pg.timestamptz p.captured_at)
    (inserted pg.uuid a.assertion_id a.provenance)
  constructor
  · rintro ⟨⟨b, hb⟩, hsame⟩
    obtain ⟨tenant_id, subject_id, j, object, visible, htaken, hobject, hcitations, -⟩ := (hread b).mp hb
    -- whatever order the citations are read in, the same assertion has to come out
    have hall : ∀ qs : List Provenance, (hperm : qs.Perm (inserted pg.uuid a.assertion_id a.provenance)) →
        qs.Pairwise (fun p q => pg.timestamptz p.captured_at ≤ pg.timestamptz q.captured_at) →
        Same a (a.reread pg tenant_id subject_id object visible _ (hne qs hperm)) :=
      fun qs hperm hordered => hsame _ ((hread _).mpr ⟨tenant_id, subject_id, j, object, visible, htaken,
        hobject, hcitations, qs, hperm, hordered, hne qs hperm, rfl⟩)
    obtain ⟨hobjects, htenant, hsubject, hconfidence, hrisk, hfrom, -⟩ :=
      (same_reread_iff hbuilt).mp (hall qs₀ hperm₀ hordered₀)
    obtain ⟨hkept, hspans, horder⟩ := citations_kept_iff.mp fun qs hperm hordered =>
      ((same_reread_iff hbuilt).mp (hall qs hperm hordered)).2.2.2.2.2.2
    have haware : ∀ p ∈ a.provenance, p.captured_at.aware = true := fun p hp =>
      (reread_eq_iff.mp (hkept p hp)).2
    obtain ⟨o, ho, hround⟩ := object_read htaken.object
    obtain rfl := Option.some.inj (ho.symm.trans hobject)
    obtain ⟨hstorable, hstrings⟩ := jsonb_isSome.mp ⟨j, htaken.object⟩
    exact
      { tenant_id := htenant ▸ htaken.tenant
        subject_id := hsubject ▸ htaken.subject
        texts := by simp [htaken.namespace_text, htaken.predicate_text, htaken.trace_text]
        object := ⟨hstorable, hstrings, hround.mp hobjects⟩
        confidence := real_eq_iff.mp hconfidence
        risk := real_eq_iff.mp hrisk
        valid_from := hfrom
        citations := fun p hp => ⟨hcitations p hp, reread_eq_iff.mp (hkept p hp)⟩
        spans := nodup_ids_iff.mp hspans
        order := (increasing_iff haware).mp horder }
  · intro hfits
    obtain ⟨hstorable, hstrings, hround⟩ := hfits.object
    obtain ⟨j, hj⟩ := jsonb_isSome.mpr ⟨hstorable, hstrings⟩
    obtain ⟨object, hobject, hobjects⟩ := object_read hj
    have htaken : Taken pg a tenant a.tenant_id a.subject_id j :=
      { tenant := hfits.tenant_id, subject := hfits.subject_id, object := hj
        namespace_text := hfits.texts _ (by simp), predicate_text := hfits.texts _ (by simp)
        trace_text := hfits.texts _ (by simp) }
    have hincreasing := (@increasing_iff pg a.provenance fun p hp => (hfits.citations p hp).2.2).mpr hfits.order
    have hkept := (@citations_kept_iff pg a.assertion_id a.provenance).mpr
      ⟨fun p hp => reread_eq_iff.mpr (hfits.citations p hp).2, nodup_ids_iff.mpr hfits.spans, hincreasing⟩
    refine ⟨⟨_, (hread _).mpr ⟨_, _, j, object, false, htaken, hobject, fun p hp => (hfits.citations p hp).1,
      qs₀, hperm₀, hordered₀, hne qs₀ hperm₀, rfl⟩⟩, fun b hb => ?_⟩
    obtain ⟨tenant_id, subject_id, j', o, visible, htaken', ho, -, qs, hperm, hordered, hqs, rfl⟩ :=
      (hread b).mp hb
    obtain rfl := Option.some.inj (hj.symm.trans htaken'.object)
    obtain rfl := Option.some.inj (hobject.symm.trans ho)
    exact (same_reread_iff hbuilt).mpr ⟨hobjects.mpr hround,
      Option.some.inj (htaken'.tenant.symm.trans hfits.tenant_id),
      Option.some.inj (htaken'.subject.symm.trans hfits.subject_id), real_eq_iff.mpr hfits.confidence,
      real_eq_iff.mpr hfits.risk, hfits.valid_from, hkept qs hperm hordered⟩

/-! ### Nine tenths -/

/-- The double nearest to a probability given in percent. -/
def float_percent (n : ℕ) : UnitFloat :=
  ⟨Clinical.float (Clinical.percent n).1,
    Clinical.python_keepsUnit _ (Clinical.percent n).2.1 (Clinical.percent n).2.2⟩

/-- Ids that are canonical already, and no naive datetime. -/
def driver : Driver where
  uuid := Clinical.uuid
  cast := some
  cast_of _ := rfl
  timestamptz t := t.instant
  timestamptz_aware _ _ := rfl

def stated_language : Provenance where
  source_hash := "trace"
  source_span := (0, 1)
  source_tier := .VERIFIED_USER
  verbatim := ""
  alignment := float_percent 100
  captured_at := utc 0
  verbatim_short := verbatim_empty
  span_real := Nat.succ_pos _

/-- A language written at a confidence of nine tenths and a risk of a quarter. -/
def approved : GovernedCandidate where
  candidate :=
    { candidate_id := "1", tenant_id := "6f9619ff-8b86-d011-b42d-00c04fc964ff", «namespace» := "patient:1"
      predicate := "preferred_language", object := .str "Tamil"
      provenance := stated_language, trace_id := "trace" }
  subject_id := "7d444840-9dc0-11d1-b245-5ffdce74fad2"
  record :=
    { decision := .AUTO_WRITE, reason_codes := []
      confidence := ⟨float_percent 0, float_percent 100, float_percent 100, float_percent 50,
        float_percent 100, float_percent 90, "v1"⟩
      risk := ⟨.LOW, float_percent 25, [], [], RiskVerdict.unobliged⟩
      conflict := ⟨.NONE, none, float_percent 0, float_percent 0, Cosine.zero, .coexist⟩
      thresholds_version := "default", policy_version := "v1" }

theorem real_nine_tenths : (float_percent 90).1 = 8106479329266893 / 2 ^ 53 ∧
    real (float_percent 90).1 = 15099494 / 2 ^ 24 := by
  decide +kernel

/-- Written at `0.9`, the fact is read at `0.8999999761581421`. -/
theorem confidence_altered :
    let a := (fresh driver.uuid 0 approved).citing stated_language []
    let tenant : TenantId := "6f9619ff-8b86-d011-b42d-00c04fc964ff"
    a.confidence.1 = 8106479329266893 / 2 ^ 53 ∧ (∃ b, ReadsAs driver a tenant b) ∧
      ∀ b, ReadsAs driver a tenant b → b.confidence.1 = 15099494 / 2 ^ 24 ∧ ¬ Same a b := by
  intro a tenant
  have hbuilt : Built driver a := built_fresh stated_language []
  have hread := fun b => (read_back_iff hbuilt : ReadsAs driver a tenant b ↔ _)
  obtain ⟨hwritten, hstored⟩ := real_nine_tenths
  refine ⟨hwritten, ?_, fun b hb => ?_⟩
  · have hobject : jsonb a.object = some (.scalar (.string "Tamil")) :=
      if_pos ⟨storable_leaf.mpr ⟨rfl, rfl⟩, by decide⟩
    have hinserted : inserted driver.uuid a.assertion_id a.provenance = [stated_language] := by
      simp [inserted, insertNew, a, StoredAssertion.citing]
    refine ⟨_, (hread _).mpr ⟨tenant, a.subject_id, _, .str "Tamil", false,
      ⟨rfl, rfl, by decide, by decide, by decide, hobject⟩, rfl, ?_, [stated_language], hinserted ▸ .rfl,
      List.pairwise_singleton _ _, List.cons_ne_nil _ _, rfl⟩⟩
    exact List.forall_mem_singleton.mpr ⟨by decide, by decide, by decide⟩
  · obtain ⟨_, _, _, _, _, -, -, -, _, -, -, _, rfl⟩ := (hread b).mp hb
    refine ⟨hstored, fun hsame => ?_⟩
    have hkept := ((same_reread_iff hbuilt).mp hsame).2.2.2.1
    exact absurd (hstored.symm.trans (hkept.trans hwritten)) (by norm_num)

end GuardMem.TypedRows
