import GuardMem.Replay

/-! Histories in which no proposal is delivered twice.

    CORRECT: an apply of such a history derives an id that no stored row has (`fresh_of_once`): the id
    is made of the trace and the candidate, a trace is one delivery's, and a delivery takes each of its
    candidates once. -/

namespace GuardMem

open Lib.Transition

variable {G : Type} {env : Env G} {w w' : World G} {l : Label} {ls : List Label} {ss rest : List Slot}
  {g : GovernedCandidate} {seen : List AssertionId}

/-- The proposal a label delivers. -/
def Label.delivers : Label → Option TraceId
  | .deliver _ _ trace _ => some trace
  | _ => none

/-- Each proposal is delivered once, and a trace is a word without slashes. -/
def Once (ls : List Label) : Prop :=
  (ls.filterMap Label.delivers).Nodup ∧ ∀ t ∈ ls.filterMap Label.delivers, '/' ∉ t.toList

instance (ls : List Label) : Decidable (Once ls) := inferInstanceAs (Decidable (_ ∧ _))

/-- The candidate a slot still holds. -/
def Slot.candidate_id : Slot → Option CandidateId
  | .waiting c => some c.candidate_id
  | .scored g _ => some g.candidate.candidate_id
  | .failed => none

/-- The candidates left in a delivery. -/
def pending (ss : List Slot) : List CandidateId := ss.filterMap Slot.candidate_id

/-! ### What a step does to the deliveries -/

/-- What is taken was left, and is left no longer. -/
theorem next_apply_pending {ss : List Slot} (h : next_apply ss = some (g, seen, rest)) :
    (g.candidate.candidate_id :: pending rest).Sublist (pending ss) := by
  induction ss with
  | nil => cases h
  | cons s ss ih =>
      cases s with
      | failed => exact ih h
      | waiting _ => cases h
      | scored _ _ =>
          simp only [next_apply] at h
          split at h
          · cases h
          · obtain ⟨rfl, -, rfl⟩ := by simpa using h
            simp [pending, Slot.candidate_id]

/-- Filling a slot with the same candidate, or with none, leaves no new candidate. -/
theorem pending_set {s : Slot} : ∀ {ss : List Slot} {i : ℕ} {old : Slot}, ss[i]? = some old →
    (s.candidate_id = old.candidate_id ∨ s.candidate_id = none) →
    (pending (ss.set i s)).Sublist (pending ss)
  | [], i, old, h, _ => by simp at h
  | t :: ss, 0, old, h, hs => by
      obtain rfl : t = old := by simpa using h
      rcases hs with hs | hs
      · simp [pending, List.filterMap_cons, hs]
      · simp only [List.set_cons_zero, pending, List.filterMap_cons, hs]
        cases t.candidate_id with
        | none => exact List.Sublist.refl _
        | some c => exact List.sublist_cons_self _ _
  | t :: ss, i + 1, old, h, hs => by
      have ih : (pending (ss.set i s)).Sublist (pending ss) := pending_set (by simpa using h) hs
      simp only [List.set_cons_succ, pending, List.filterMap_cons] at ih ⊢
      cases t.candidate_id with
      | none => exact ih
      | some c => exact ih.cons_cons c

/-- The deliveries after a step: one more, or one of them with no new candidate. -/
inductive DeliveryStep (w : World G) (l : Label) : List Delivery → Prop where
  | same (hl : l.delivers = none) : DeliveryStep w l w.deliveries
  | delivered {tenant ns trace cands} (hl : l.delivers = some trace)
      (hcands : extracted tenant ns trace cands) :
      DeliveryStep w l (w.deliveries ++ [⟨tenant, trace, cands.map .waiting⟩])
  | advanced {d : ℕ} {x : Delivery} {ss : List Slot} (hl : l.delivers = none)
      (hx : w.deliveries[d]? = some x) (hss : (pending ss).Sublist (pending x.slots)) :
      DeliveryStep w l (w.deliveries.set d { x with slots := ss })

theorem step_deliveries (h : step env w l = some w') : DeliveryStep w l w'.deliveries := by
  have same : l.delivers = none → w'.deliveries = w.deliveries → DeliveryStep w l w'.deliveries :=
    fun hl hd => hd ▸ .same hl
  cases l with
  | deliver tenant ns trace cands =>
      simp only [step] at h
      split at h
      · next hex =>
          obtain rfl := Option.some.inj h
          exact .delivered rfl hex
      · cases h
  | score d i reply =>
      simp only [step, Option.bind_eq_bind, Option.bind_eq_some_iff] at h
      obtain ⟨x, hx, h⟩ := h
      split at h
      · next c hc =>
          obtain rfl := Option.some.inj h
          refine .advanced rfl hx (pending_set hc ?_)
          unfold scored_slot
          split
          · next hg => exact Or.inl (congrArg some (congrArg _ (score_candidate_ok hg).1))
          · exact Or.inr rfl
      · cases h
  | scoreFails d i =>
      simp only [step, Option.bind_eq_bind, Option.bind_eq_some_iff] at h
      obtain ⟨x, hx, h⟩ := h
      split at h
      · next c hc =>
          obtain rfl := Option.some.inj h
          exact .advanced rfl hx (pending_set hc (Or.inr rfl))
      · cases h
  | apply d clock =>
      simp only [step, step_apply, Option.bind_eq_bind, Option.bind_eq_some_iff] at h
      obtain ⟨x, hx, ⟨g, seen, rest⟩, hnext, h⟩ := h
      have hsub := (List.sublist_cons_self _ _).trans (next_apply_pending hnext)
      simp only at h
      split at h <;> obtain rfl := Option.some.inj h <;> exact .advanced rfl hx hsub
  | applyFails d =>
      simp only [step, Option.bind_eq_bind, Option.bind_eq_some_iff] at h
      obtain ⟨x, hx, ⟨g, seen, rest⟩, hnext, h⟩ := h
      obtain rfl := Option.some.inj h
      exact .advanced rfl hx ((List.sublist_cons_self _ _).trans (next_apply_pending hnext))
  | abandon d =>
      simp only [step, Option.bind_eq_bind, Option.bind_eq_some_iff] at h
      obtain ⟨x, hx, h⟩ := h
      obtain rfl := Option.some.inj h
      exact .advanced rfl hx (List.nil_sublist _)
  | upsert tenant now batch =>
      simp only [step] at h
      split at h <;> obtain rfl := Option.some.inj h <;> exact same rfl rfl
  | claim locked batch =>
      simp only [step] at h
      split at h
      · obtain rfl := Option.some.inj h; exact same rfl rfl
      · cases h
  | load p =>
      simp only [step, step_load, Option.bind_eq_bind, Option.bind_eq_some_iff] at h
      obtain ⟨_, -, h⟩ := h
      split at h
      · split at h <;> obtain rfl := Option.some.inj h <;> exact same rfl rfl
      · cases h
  | write p reply =>
      simp only [step, step_write, Option.bind_eq_bind, Option.bind_eq_some_iff] at h
      obtain ⟨_, -, h⟩ := h
      split at h
      · split at h <;> obtain rfl := Option.some.inj h <;> exact same rfl rfl
      · cases h
  | complete p t =>
      simp only [step, step_complete, Option.bind_eq_bind, Option.bind_eq_some_iff] at h
      obtain ⟨_, -, h⟩ := h
      split at h
      · obtain rfl := Option.some.inj h; exact same rfl rfl
      · cases h
  | crash p =>
      simp only [step, Option.bind_eq_bind, Option.bind_eq_some_iff] at h
      obtain ⟨_, -, h⟩ := h
      obtain rfl := Option.some.inj h
      exact same rfl rfl

/-- The traces delivered so far. -/
def World.traces (w : World G) : List TraceId := w.deliveries.map Delivery.trace

theorem step_traces (h : step env w l = some w') : w'.traces = w.traces ++ l.delivers.toList := by
  have hd := step_deliveries h
  unfold World.traces
  generalize w'.deliveries = ds at hd ⊢
  cases hd with
  | same hl => simp [hl]
  | delivered hl hcands => simp [hl]
  | @advanced d x ss hl hx hss =>
      obtain ⟨hd, rfl⟩ := List.getElem?_eq_some_iff.mp hx
      rw [hl, Option.toList_none, List.append_nil, List.map_set]
      exact (congrArg _ (List.getElem_map _).symm).trans (List.set_getElem_self (by simpa using hd))

/-! ### The rows of a step -/

/-- A row of the step's outcome: one it left to its end, the one it inserted, or the one it retired. -/
inductive RowOrigin (env : Env G) (w : World G) (l : Label) : AssertionRow → Prop where
  | kept {r v} (hr : r ∈ w.db.assertions) : RowOrigin env w l { r with visible := v }
  | fresh {p} (hp : landing env w l = some p) :
      RowOrigin env w l (fresh_row env.deps p.tenant p.clock p.governed)
  | retired {p r} (hp : landing env w l = some p) (hr : r ∈ w.db.assertions)
      (hret : retires p.governed = some r.id) : RowOrigin env w l
        (r.retire p.clock.applied_at (assertion_id env.deps.uuid p.governed))

theorem row_origin (h : step_governed env w l = some w') (hi : Wf env.deps.uuid w.db)
    (hr : r ∈ w'.db.assertions) : RowOrigin env w l r := by
  cases hp : landing env w l with
  | none =>
      obtain ⟨f, hrows, hf⟩ := (step_unlanded hp hi h).rows
      rw [hrows] at hr
      obtain ⟨q, hq, rfl⟩ := List.mem_map.mp hr
      rw [hf]
      exact .kept hq
  | some p =>
      obtain ⟨-, -, -, -, -, -, -, -, hl⟩ := landing_some hp
      rw [(step_landing hp hi (step_of_governed h).1).1] at hr
      rcases (mem_landed hi hl).mp hr with ⟨hq, -⟩ | - | ⟨hq, hret, -, -⟩
      · exact .kept hq
      · exact .fresh hp
      · exact .retired hp hq hret

/-- An apply that lands under a new id leaves its row in the table. -/
theorem fresh_mem {p : Landing} (h : step_governed env w l = some w') (hi : Wf env.deps.uuid w.db)
    (hp : landing env w l = some p) (hnew : assertion_id env.deps.uuid p.governed ∉ w.db.ids) :
    fresh_row env.deps p.tenant p.clock p.governed ∈ w'.db.assertions := by
  obtain ⟨-, -, -, -, -, -, -, -, hl⟩ := landing_some hp
  rw [(step_landing hp hi (step_of_governed h).1).1]
  exact (mem_landed hi hl).mpr (.fresh hnew)

/-! ### Ids of their own -/

/-- The name an assertion's id is derived from. -/
def assertion_name (trace : TraceId) (cid : CandidateId) : String :=
  "guardmem/assertion/" ++ trace ++ "/" ++ cid

theorem assertion_name_inj {t t' : TraceId} {c c' : CandidateId} (ht : '/' ∉ t.toList)
    (ht' : '/' ∉ t'.toList) (h : assertion_name t c = assertion_name t' c') : t = t' ∧ c = c' := by
  unfold assertion_name at h
  rw [String.append_assoc, String.append_assoc, String.append_assoc, String.append_assoc] at h
  have hword := (String.append_right_inj "guardmem/assertion/").mp h
  have hlist := congrArg String.toList hword
  rw [String.toList_append, String.toList_append, String.toList_append, String.toList_append] at hlist
  obtain rfl := String.toList_injective (eq_of_append_sep ht ht' hlist)
  exact ⟨rfl, (String.append_right_inj "/").mp ((String.append_right_inj t).mp hword)⟩

/-- Each delivery holds distinct candidates, and each row is of a candidate its delivery no longer
    holds. -/
structure Owned (uuid : Uuid5) (w : World G) : Prop where
  distinct : ∀ x ∈ w.deliveries, (pending x.slots).Nodup
  used : ∀ r ∈ w.db.assertions, ∃ x ∈ w.deliveries, ∃ cid,
    r.id = uuid.of (assertion_name x.trace cid) ∧ cid ∉ pending x.slots

theorem delivery_persists (h : step env w l = some w') {x : Delivery} (hx : x ∈ w.deliveries) :
    ∃ x' ∈ w'.deliveries, x'.trace = x.trace ∧ pending x'.slots ⊆ pending x.slots := by
  have hd := step_deliveries h
  generalize w'.deliveries = ds at hd ⊢
  cases hd with
  | same hl => exact ⟨x, hx, rfl, List.Subset.refl _⟩
  | delivered hl hcands => exact ⟨x, List.mem_append_left _ hx, rfl, List.Subset.refl _⟩
  | @advanced d y ss hl hy hss =>
      obtain ⟨i, hi⟩ := List.mem_iff_getElem?.mp hx
      by_cases hid : d = i
      · subst hid
        obtain rfl : y = x := Option.some.inj (hy.symm.trans hi)
        exact ⟨_, List.mem_set (List.getElem?_eq_some_iff.mp hy).1 _, rfl, hss.subset⟩
      · refine ⟨x, List.mem_iff_getElem?.mpr ⟨i, ?_⟩, rfl, List.Subset.refl _⟩
        rw [List.getElem?_set_ne hid, hi]

/-- The delivery of a landing apply goes on without its candidate. -/
theorem landing_delivery {p : Landing} (hp : landing env w l = some p) (h : step env w l = some w') :
    ∃ x ∈ w.deliveries, x.trace = p.trace ∧ ∃ rest, { x with slots := rest } ∈ w'.deliveries ∧
      (p.governed.candidate.candidate_id :: pending rest).Sublist (pending x.slots) := by
  obtain ⟨d, x, rest, rfl, hx, -, htrace, hnext, -⟩ := landing_some hp
  refine ⟨x, List.mem_of_getElem? hx, htrace, rest, ?_, next_apply_pending hnext⟩
  have hset : w'.deliveries = w.deliveries.set d { x with slots := rest } := by
    simp only [step, step_apply, hx, hnext, Option.bind_eq_bind, Option.bind_some] at h
    split at h <;> obtain rfl := Option.some.inj h <;> rfl
  rw [hset]
  exact List.mem_set (List.getElem?_eq_some_iff.mp hx).1 _

theorem assertion_id_landing {p : Landing} {uuid : Uuid5} (hs : SlotsOk w)
    (hp : landing env w l = some p) :
    assertion_id uuid p.governed = uuid.of (assertion_name p.trace p.governed.candidate.candidate_id) := by
  rw [← (hs.landing hp).1.2]
  rfl

/-- A step leaves a delivery distinct candidates. -/
theorem step_pending (h : step env w l = some w') (hd : ∀ x ∈ w.deliveries, (pending x.slots).Nodup) :
    ∀ x ∈ w'.deliveries, (pending x.slots).Nodup := by
  have hsteps := step_deliveries h
  generalize w'.deliveries = ds at hsteps ⊢
  cases hsteps with
  | same hl => exact hd
  | @delivered tenant ns trace cands hl hcands =>
      intro x hx
      rcases List.mem_append.mp hx with hx | hx
      · exact hd x hx
      · obtain rfl := List.mem_singleton.mp hx
        have hids : pending (cands.map .waiting) = cands.map MemoryCandidate.candidate_id := by
          rw [pending, List.filterMap_map]
          exact congrFun List.filterMap_eq_map' cands
        exact hids ▸ hcands.1
  | @advanced d y ss hl hy hss =>
      intro x hx
      rcases List.mem_or_eq_of_mem_set hx with hx | rfl
      · exact hd x hx
      · exact (hd y (List.mem_of_getElem? hy)).sublist hss

/-- What a delivery no longer holds it does not hold a step later. -/
theorem step_used {id : AssertionId} {uuid : Uuid5} (h : step env w l = some w')
    (hu : ∃ x ∈ w.deliveries, ∃ cid, id = uuid.of (assertion_name x.trace cid) ∧ cid ∉ pending x.slots) :
    ∃ x ∈ w'.deliveries, ∃ cid, id = uuid.of (assertion_name x.trace cid) ∧ cid ∉ pending x.slots := by
  obtain ⟨x, hx, cid, hid, hnot⟩ := hu
  obtain ⟨x', hx', htrace, hsub⟩ := delivery_persists h hx
  exact ⟨x', hx', cid, htrace ▸ hid, fun hmem => hnot (hsub hmem)⟩

theorem step_owned (h : step_governed env w l = some w') (hi : Wf env.deps.uuid w.db) (hs : SlotsOk w)
    (ho : Owned env.deps.uuid w) : Owned env.deps.uuid w' := by
  have hstep := (step_of_governed h).1
  refine ⟨step_pending hstep ho.distinct, fun r hr => ?_⟩
  cases row_origin h hi hr with
  | @kept q _ hq => exact step_used hstep (ho.used q hq)
  | @retired p q hp hq _ => exact step_used hstep (ho.used q hq)
  | @fresh p hp =>
      obtain ⟨x, hx, htrace, rest, hrest, hsub⟩ := landing_delivery hp hstep
      refine ⟨_, hrest, p.governed.candidate.candidate_id, ?_, ?_⟩
      · rw [fresh_row_id, assertion_id_landing hs hp, htrace]
      · exact (List.nodup_cons.mp ((ho.distinct x hx).sublist hsub)).1

/-- The id of a decision still to be applied is no stored row's. -/
theorem Owned.unused (ho : Owned env.deps.uuid w) (hs : SlotsOk w) (hn : w.traces.Nodup)
    (hword : ∀ t ∈ w.traces, '/' ∉ t.toList) {y : Delivery} (hy : y ∈ w.deliveries)
    (hg : .scored g seen ∈ y.slots) : assertion_id env.deps.uuid g ∉ w.db.ids := by
  intro hmem
  obtain ⟨r, hr, hid⟩ := List.mem_map.mp hmem
  obtain ⟨x, hx, cid, hx_id, hnot⟩ := ho.used r hr
  have hname : env.deps.uuid.of (assertion_name x.trace cid) =
      env.deps.uuid.of (assertion_name y.trace g.candidate.candidate_id) := by
    rw [← hx_id, hid, ← (hs y hy _ hg).1.2]
    rfl
  obtain ⟨hsame, rfl⟩ := assertion_name_inj (hword _ (List.mem_map_of_mem hx))
    (hword _ (List.mem_map_of_mem hy)) (env.deps.uuid.injective hname)
  obtain rfl := List.inj_on_of_nodup_map hn hx hy hsame
  exact hnot (List.mem_filterMap.mpr ⟨_, hg, rfl⟩)

theorem Owned.fresh (ho : Owned env.deps.uuid w) (hs : SlotsOk w) (hn : w.traces.Nodup)
    (hword : ∀ t ∈ w.traces, '/' ∉ t.toList) : Fresh env w l := by
  intro p hp
  obtain ⟨d, x, rest, -, hx, -, -, hnext, -⟩ := landing_some hp
  exact ho.unused hs hn hword (List.mem_of_getElem? hx) (next_apply_mem hnext).1

/-- From a world whose deliveries own their rows, a history that repeats no trace stays fresh. -/
theorem along_fresh : ∀ {ls : List Label} {w : World G}, Owned env.deps.uuid w → SlotsOk w →
    Wf env.deps.uuid w.db → (w.traces ++ ls.filterMap Label.delivers).Nodup →
    (∀ t ∈ w.traces ++ ls.filterMap Label.delivers, '/' ∉ t.toList) →
    Along (step_governed env) (Fresh env) w ls
  | [], _, _, _, _, _, _ => trivial
  | l :: ls, w, ho, hs, hi, hn, hword => by
      have hfresh : Fresh env w l := ho.fresh hs (hn.sublist (List.sublist_append_left _ _))
        fun t ht => hword t (List.mem_append_left _ ht)
      refine ⟨hfresh, fun w' hl => ?_⟩
      have hstep := (step_of_governed hl).1
      have hsplit : w.traces ++ (l :: ls).filterMap Label.delivers =
          w'.traces ++ ls.filterMap Label.delivers := by
        rw [step_traces hstep, List.append_assoc]
        cases hd : l.delivers <;> simp [hd]
      rw [hsplit] at hn hword
      exact along_fresh (step_owned hl hi hs ho) (step_slotsOk hstep hi hs) (step_wf hstep hi) hn hword

/-- CORRECT: no apply of a history without redelivery derives a stored id. -/
theorem fresh_of_once (h : Once ls) : Along (step_governed env) (Fresh env) env.init ls :=
  along_fresh ⟨fun _ hx => absurd hx List.not_mem_nil, fun _ hr => absurd hr List.not_mem_nil⟩
    slotsOk_init .empty h.1 h.2

end GuardMem
