import GuardMem.Lib.Lineage
import GuardMem.PointInTime
import GuardMem.Retrieval
import GuardMem.SingleValue

/-! Serial histories: each proposal is applied and relayed before the next is scored.

    A candidate is then judged against the one live row of its key, if its read comes to that row. CORRECT
    where it does: readers are served the value that was auto-written last over a different one, and the
    rows of the key form one line of supersession, in the order they were written, that ends at the row
    served (`last_writer`). A read that forty nearer rows of others crowd out leaves a second row beside it
    (`crowded_writer`). -/

namespace GuardMem

open Lib.Lineage Lib.Pointer Lib.Table Lib.Transition

variable {G : Type}

/-- Tenant, namespace, subject and predicate. -/
abbrev Key : Type := TenantId × Namespace × EntityId × String

/-- Every row written under a key, in the table's order. -/
def Db.under (db : Db) (key : Key) : List AssertionRow := db.assertions.filter fun r => r.key == key

def AssertionRow.value (r : AssertionRow) : Option ObjectValue := ObjectValue.ofJson r.object_json

/-- The visible, live values of a key. -/
def Db.served_values (db : Db) (key : Key) : List ObjectValue :=
  ((db.under key).filter AssertionRow.served).filterMap AssertionRow.value

/-- The object a label's apply auto-writes under a key, where it differs from what is live there. -/
def rewritten (key : Key) (w : World G) : Label → Option ObjectValue
  | .apply d _ => do
      let x ← w.deliveries[d]?
      let (g, _, _) ← next_apply x.slots
      if g.key x.tenant = key ∧ g.record.decision = .AUTO_WRITE ∧
          ∀ v ∈ w.db.served_values key, v.pyEq g.candidate.object = false then
        some g.candidate.object
      else none
  | _ => none

/-! ### Scoring under a plan -/

/-- A label, and how the database answers the read of a scoring. -/
structure Planned where
  label : Label
  plan : Db → Plan

/-- The world as far as a read gets to see it. -/
def World.seen (w : World G) (plan : Plan) : World G := { w with db := plan.view w.db }

/-- One step of the governed system; a candidate is scored against the rows that its read comes to. -/
def step_planned (env : Env G) (w : World G) (t : Planned) : Option (World G) :=
  match t.label with
  | .score d i reply =>
      (step env (w.seen (t.plan w.db)) (.score d i reply)).map fun w' => { w' with db := w.db }
  | l => step_governed env w l

/-- The read of a scoring is answered in a way Postgres has: by every row, or by a bounded scan. -/
def Conforming (w : World G) (t : Planned) : Prop := (t.plan w.db).Conforms w.db

instance (w : World G) (t : Planned) : Decidable (Conforming w t) :=
  inferInstanceAs (Decidable ((t.plan w.db).Conforms w.db))

/-- The last of these along a run. -/
def last_written (env : Env G) (key : Key) : World G → List Planned → Option ObjectValue
  | _, [] => none
  | w, t :: ts => (step_planned env w t).bind fun w' =>
      (last_written env key w' ts).or (rewritten key w t.label)

/-- What the log says was written under a key, in order. -/
def written_ids (key : Key) (log : List LogEntry) : List AssertionId :=
  (log.filter fun e => e.governed.key e.tenant == key).filterMap LogEntry.written

/-! ### Serial histories -/

def Slot.isScored : Slot → Bool
  | .scored _ _ => true
  | _ => false

/-- A proposal is scored once every event is dispatched and no other has a decision left to apply. -/
def InTurn (w : World G) : Label → Prop
  | .score d _ _ => w.db.Quiet ∧ ∀ y ∈ w.deliveries[d]?, ∀ x ∈ w.deliveries, x.trace ≠ y.trace →
      x.slots.any Slot.isScored = false
  | _ => True

/-- A proposal has at most one candidate for each subject and `ONE` predicate. -/
def Label.single (deps : Deps) : Label → Prop
  | .deliver tenant _ _ cands => ∀ c ∈ cands, ∀ c' ∈ cands, deps.one c.predicate →
      ∀ key ∈ (c.key deps tenant).toOption, (c'.key deps tenant).toOption = some key → c' = c
  | _ => True

/-- An apply that supersedes commits. -/
def Unrejected (env : Env G) (w : World G) : Label → Prop
  | .apply d clock => ∀ x ∈ w.deliveries[d]?, ∀ next ∈ next_apply x.slots, retires next.1 ≠ none →
      (apply env.deps x.tenant x.trace clock next.1 w.db).isOk = true
  | _ => True

instance (w : World G) : (l : Label) → Decidable (InTurn w l)
  | .score .. => inferInstanceAs (Decidable (_ ∧ ∀ y ∈ w.deliveries[_]?, ∀ x ∈ w.deliveries, _))
  | .deliver .. | .scoreFails .. | .apply .. | .applyFails .. | .abandon .. | .upsert .. | .claim ..
  | .load .. | .write .. | .complete .. | .crash .. => inferInstanceAs (Decidable True)

instance (deps : Deps) : (l : Label) → Decidable (l.single deps)
  | .deliver tenant _ _ cands => inferInstanceAs (Decidable (∀ c ∈ cands, ∀ c' ∈ cands,
      deps.one c.predicate → ∀ key ∈ (c.key deps tenant).toOption, _ → _))
  | .score .. | .scoreFails .. | .apply .. | .applyFails .. | .abandon .. | .upsert .. | .claim ..
  | .load .. | .write .. | .complete .. | .crash .. => inferInstanceAs (Decidable True)

instance (env : Env G) (w : World G) : (l : Label) → Decidable (Unrejected env w l)
  | .apply d _ => inferInstanceAs (Decidable (∀ x ∈ w.deliveries[d]?, ∀ next ∈ next_apply x.slots, _ → _))
  | .deliver .. | .score .. | .scoreFails .. | .applyFails .. | .abandon .. | .upsert .. | .claim ..
  | .load .. | .write .. | .complete .. | .crash .. => inferInstanceAs (Decidable True)

/-- A run from the start in which proposals take turns, the last one relayed too. -/
structure SerialHistory (env : Env G) (ts : List Planned) (w : World G) : Prop where
  run : run (step_planned env) env.init ts = some w
  once : Once (ts.map Planned.label)
  single : ∀ t ∈ ts, t.label.single env.deps
  answered : Along (step_planned env) Conforming env.init ts
  in_turn : Along (step_planned env) (fun w t => InTurn w t.label) env.init ts
  unrejected : Along (step_planned env) (fun w t => Unrejected env w t.label) env.init ts
  relayed : w.db.Quiet

/-- Last-writer semantics for one key: what is served, the rows in the order they were written, and
    where their pointers lead. -/
structure LastWriter (env : Env G) (ts : List Planned) (key : Key) (w : World G) : Prop where
  value : w.db.served_values key = (last_written env key env.init ts).toList
  kept : (w.db.under key).map AssertionRow.id = written_ids key w.log
  ended : ∀ r ∈ (w.db.under key).dropLast, r.valid_to ≠ none ∧ r.superseded_by ≠ none
  linked : (w.db.under key).IsChain fun r q => r.superseded_by = some q.id
  served : ∀ r ∈ (w.db.under key).getLast?, r.served = true ∧ r.superseded_by = none
  leads : ∀ r ∈ w.db.under key, ∀ q ∈ (w.db.under key).getLast?, Leads w.db.next r.id q.id

/-- The `ONE` keys that a label scores a candidate of. -/
def Label.scores (deps : Deps) (w : World G) : Label → Option Key
  | .score d i _ => do
      let x ← w.deliveries[d]?
      match x.slots[i]? with
      | some (.waiting c) => if deps.one c.predicate then (c.key deps x.tenant).toOption else none
      | _ => none
  | _ => none

/-- The read of a scoring under a `ONE` predicate comes to what is served of its key. -/
def Comes (env : Env G) (w : World G) (t : Planned) : Prop :=
  ∀ key ∈ t.label.scores env.deps w, ∀ r ∈ w.db.under key, r.served = true →
    r ∈ ((t.plan w.db).view w.db).assertions

/-- The read is answered by every row or a full scan, and where something is served of its key fewer than
    `ef_search` rows of the index are not of it. -/
def Roomy (env : Env G) (w : World G) (t : Planned) : Prop :=
  ∀ key ∈ t.label.scores env.deps w, (t.plan w.db).Full w.db ∧
    ((∃ r ∈ w.db.under key, r.served = true) →
      ((partial_index w.db).filter fun r => !(r.key == key)).length < EF_SEARCH)

variable {env : Env G} {w w' : World G} {l : Label} {t : Planned} {deps : Deps} {db : Db} {key : Key}
  {tenant : TenantId} {trace : TraceId} {clock : ApplyClock} {g : GovernedCandidate} {r : AssertionRow}

/-! ### The rows of a key, a step later -/

theorem mem_under : r ∈ db.under key ↔ r ∈ db.assertions ∧ r.key = key := by simp [Db.under]

/-- A row as an apply leaves it. -/
def AssertionRow.after (uuid : Uuid5) (clock : ApplyClock) (g : GovernedCandidate) (r : AssertionRow) :
    AssertionRow :=
  if retires g = some r.id then r.retire clock.applied_at (assertion_id uuid g) else r

theorem after_key (uuid : Uuid5) (r : AssertionRow) : (r.after uuid clock g).key = r.key := by
  unfold AssertionRow.after
  split <;> rfl

theorem after_id (uuid : Uuid5) (r : AssertionRow) : (r.after uuid clock g).id = r.id := by
  unfold AssertionRow.after
  split <;> rfl

/-- An apply that lands under a new id puts its row behind the others. -/
theorem landed_rows (hwf : Wf deps.uuid db) (hl : Lands deps tenant clock g db)
    (hnew : assertion_id deps.uuid g ∉ db.ids) :
    (landed deps tenant trace clock g db).assertions =
      db.assertions.map (AssertionRow.after deps.uuid clock g) ++ [fresh_row deps tenant clock g] := by
  have hinsert : insertNew AssertionRow.id (fresh_row deps tenant clock g) db.assertions =
      db.assertions ++ [fresh_row deps tenant clock g] := insertNew_new hnew
  simp only [landed, landed_assertions, hinsert]
  cases hret : retires g with
  | none =>
      have hsame : ∀ r ∈ db.assertions, r.after deps.uuid clock g = r := fun r _ => by
        simp [AssertionRow.after, hret]
      rw [List.map_congr_left hsame, List.map_id']
  | some old =>
      have hother : supersedes tenant old (fresh_row deps tenant clock g) = false := by
        refine Bool.eq_false_iff.mpr fun hs => (hl.target old hret).1 ?_
        exact (supersedes_iff.mp hs).1.symm
      simp only [updateWhere, List.map_append, List.map_singleton, hother, Bool.false_eq_true, if_false]
      refine congrArg (· ++ _) (List.map_congr_left fun r hr => ?_)
      by_cases hid : old = r.id
      · subst hid
        simp [AssertionRow.after, hret, hl.takes hwf hr hret]
      · have hs : supersedes tenant old r = false := by
          refine Bool.eq_false_iff.mpr fun hs => hid ?_
          exact (supersedes_iff.mp hs).1.symm
        simp [AssertionRow.after, hret, hid, hs]

theorem under_landed (hwf : Wf deps.uuid db) (hl : Lands deps tenant clock g db)
    (hnew : assertion_id deps.uuid g ∉ db.ids) :
    (landed deps tenant trace clock g db).under key =
      (db.under key).map (AssertionRow.after deps.uuid clock g) ++
        if g.key tenant = key then [fresh_row deps tenant clock g] else [] := by
  have hkey : (fun r : AssertionRow => r.key == key) ∘ AssertionRow.after deps.uuid clock g =
      fun r => r.key == key := funext fun r => by simp [after_key]
  rw [Db.under, landed_rows hwf hl hnew, List.filter_append, List.filter_map, hkey, Db.under]
  congr 1
  by_cases h : g.key tenant = key <;> simp [h]

/-- A step that lands nothing at most reveals the rows. -/
theorem under_unlanded (hu : Unlanded w w') : ∃ f : AssertionRow → AssertionRow,
    (∀ r, f r = { r with visible := (f r).visible }) ∧
      ∀ key, w'.db.under key = (w.db.under key).map f := by
  obtain ⟨f, hrows, hf⟩ := hu.rows
  refine ⟨f, hf, fun key => ?_⟩
  have hkey : (fun r : AssertionRow => r.key == key) ∘ f = fun r => r.key == key := by
    funext r
    have hsame : (f r).key = r.key := by rw [hf]; rfl
    simp [hsame]
  rw [Db.under, hrows, List.filter_map, hkey, Db.under]

/-! ### What a decision was taken against -/

/-- The rows in the order they were written form a line of supersession. -/
abbrev Lined (rows : List AssertionRow) : Prop := Line AssertionRow.id AssertionRow.superseded_by rows

/-- An auto-write was decided against the last of these rows: it supersedes that row if the value is
    another one, and writes nothing if it is the same. -/
def Judged (rows : List AssertionRow) (g : GovernedCandidate) : Prop :=
  g.record.decision = .AUTO_WRITE →
    (rows.getLast? = none ∧ refusal g = none ∧ retires g = none) ∨
    ∃ r ∈ rows.getLast?, r.visible = true ∧ ∃ v ∈ r.value,
      (v.pyEq g.candidate.object = false ∧ refusal g = none ∧ retires g = some r.id) ∨
        (v.pyEq g.candidate.object = true ∧ refusal g ≠ none)

theorem auto_of_writes (h : refusal g = none) : g.record.decision = .AUTO_WRITE := by
  unfold refusal at h
  split at h
  · cases h
  · next hd => simpa using hd

/-- The row a decision supersedes is the last one, and there is none only if there are no rows. -/
theorem Judged.retires {rows : List AssertionRow} (h : Judged rows g) (hw : refusal g = none) :
    retires g = rows.getLast?.map AssertionRow.id := by
  rcases h (auto_of_writes hw) with ⟨hlast, -, hret⟩ | ⟨r, hr, -, v, -, ⟨-, -, hret⟩ | ⟨-, hno⟩⟩
  · rw [hlast, hret]; rfl
  · rw [Option.mem_def.mp hr, hret]; rfl
  · exact absurd hw hno

/-- Revealing rows leaves a decision judged. -/
theorem Judged.map {rows : List AssertionRow} {f : AssertionRow → AssertionRow} (h : Judged rows g)
    (hf : ∀ r, f r = { r with visible := (f r).visible })
    (hv : ∀ r ∈ rows, r.visible = true → (f r).visible = true) : Judged (rows.map f) g := by
  intro hauto
  rcases h hauto with ⟨hlast, hrest⟩ | ⟨r, hr, hvis, v, hval, hcase⟩
  · exact Or.inl ⟨by rw [List.getLast?_map, hlast]; rfl, hrest⟩
  · refine Or.inr ⟨f r, by rw [List.getLast?_map, Option.mem_def.mp hr]; rfl, ?_, v, ?_, ?_⟩
    · exact hv r (List.mem_of_getLast? hr) hvis
    · rw [hf]; exact hval
    · have hid : (f r).id = r.id := by rw [hf]
      rwa [hid]

/-- An apply that lands as judged puts its row at the end of the line. -/
theorem lined_landed (hwf : Wf deps.uuid db) (hl : Lands deps tenant clock g db)
    (hnew : assertion_id deps.uuid g ∉ db.ids) (hline : Lined (db.under (g.key tenant)))
    (hj : Judged (db.under (g.key tenant)) g) :
    Lined ((landed deps tenant trace clock g db).under (g.key tenant)) := by
  rw [under_landed hwf hl hnew, if_pos rfl]
  have hret := hj.retires hl.writes
  rcases List.eq_nil_or_concat (db.under (g.key tenant)) with hnil | ⟨rows, r, hrows⟩
  · rw [hnil]
    exact Line.singleton rfl
  · rw [List.concat_eq_append] at hrows
    rw [hrows] at hline hret ⊢
    simp only [List.getLast?_append, List.getLast?_singleton, Option.some_or, Option.map_some] at hret
    have hlast : r.after deps.uuid clock g = r.retire clock.applied_at (assertion_id deps.uuid g) := by
      rw [AssertionRow.after, if_pos hret]
    -- the rows before it were superseded already
    have hrest : rows.map (AssertionRow.after deps.uuid clock g) = rows := by
      refine (List.map_congr_left fun q hq => ?_).trans (List.map_id' _)
      rw [AssertionRow.after, if_neg]
      intro hq'
      have hmem : ∀ p ∈ rows ++ [r], p ∈ db.assertions := fun p hp => (mem_under.mp (hrows ▸ hp)).1
      have hid : q = r := hwf.eq_of_id (hmem q (by simp [hq])) (hmem r (by simp))
        (Option.some.inj (hq'.symm.trans hret))
      exact hline.points hq (hid ▸ hline.ends r (by simp))
    rw [List.map_append, hrest, List.map_singleton, hlast, List.append_assoc]
    exact hline.extend rfl rfl rfl

/-! ### The invariant -/

/-- The candidate a slot holds. -/
def Slot.candidate : Slot → Option MemoryCandidate
  | .waiting c => some c
  | .scored g _ => some g.candidate
  | .failed => none

theorem candidate_pending {s : Slot} {ss : List Slot} {c : MemoryCandidate} (hs : s ∈ ss)
    (hc : c ∈ s.candidate) : c.candidate_id ∈ pending ss := by
  refine List.mem_filterMap.mpr ⟨s, hs, ?_⟩
  cases s with
  | waiting _ => rw [← Option.some.inj hc]; rfl
  | scored _ _ => rw [← Option.some.inj hc]; rfl
  | failed => cases hc

/-- Decisions are left to apply in one proposal at most, and no two candidates of a proposal share a `ONE`
    key. -/
structure Apart (deps : Deps) (ds : List Delivery) : Prop where
  alone : ∀ x ∈ ds, ∀ y ∈ ds, x.slots.any Slot.isScored = true → y.slots.any Slot.isScored = true →
    x.trace = y.trace
  distinct : ∀ x ∈ ds, ∀ y ∈ ds, x.trace = y.trace → ∀ s ∈ x.slots, ∀ s' ∈ y.slots,
    ∀ c ∈ s.candidate, ∀ c' ∈ s'.candidate, deps.one c.predicate →
      ∀ key, c.key deps x.tenant = .ok key → c'.key deps y.tenant = .ok key → c' = c

/-- What a serial history keeps: the rows of a `ONE` key are a line, and each decision left was taken
    against its key's rows as they are. -/
structure Serial (deps : Deps) (w : World G) : Prop extends Apart deps w.deliveries where
  line : ∀ key : Key, deps.one key.2.2.2 → Lined (w.db.under key)
  judged : ∀ x ∈ w.deliveries, ∀ g seen, .scored g seen ∈ x.slots → deps.one g.candidate.predicate →
    g.candidate.key deps x.tenant = .ok (g.key x.tenant) ∧ Judged (w.db.under (g.key x.tenant)) g

theorem serial_init : Serial env.deps env.init :=
  ⟨⟨fun _ hx => absurd hx List.not_mem_nil, fun _ hx => absurd hx List.not_mem_nil⟩, fun _ _ => Line.nil,
    fun _ hx => absurd hx List.not_mem_nil⟩

/-- All that is known of a world that a serial history reaches. -/
structure Orderly (env : Env G) (w : World G) : Prop extends Ready env w where
  threaded : Threaded w.db
  owned : Owned env.deps.uuid w
  traces : w.traces.Nodup
  words : ∀ t ∈ w.traces, '/' ∉ t.toList
  logged : ∀ key, (w.db.under key).map AssertionRow.id = written_ids key w.log
  serial : Serial env.deps w

theorem Orderly.fresh (ht : Orderly env w) : Fresh env w l := ht.owned.fresh ht.slots ht.traces ht.words

/-- A landing apply leaves the rows of other keys as they are. -/
theorem under_other {p : Landing} (hw : Ready env w) (hp : landing env w l = some p)
    (hnew : assertion_id env.deps.uuid p.governed ∉ w.db.ids) (hother : p.governed.key p.tenant ≠ key) :
    (landed env.deps p.tenant p.trace p.clock p.governed w.db).under key = w.db.under key := by
  obtain ⟨-, -, -, -, -, -, -, -, hl⟩ := landing_some hp
  rw [under_landed hw.wf hl hnew, if_neg hother, List.append_nil]
  refine (List.map_congr_left fun r hr => ?_).trans (List.map_id' _)
  obtain ⟨hr, hkey⟩ := mem_under.mp hr
  rw [AssertionRow.after, if_neg]
  exact fun hret => hother ((retired_key hw.slots hw.wf hp hr hret).symm.trans hkey)

/-- What a landing apply takes its proposal no longer holds. -/
theorem landing_taken {p : Landing} (hp : landing env w l = some p) (h : step env w l = some w')
    (ho : Owned env.deps.uuid w) (hn : w'.traces.Nodup) {x : Delivery} (hx : x ∈ w'.deliveries)
    (htrace : x.trace = p.trace) : p.governed.candidate.candidate_id ∉ pending x.slots := by
  obtain ⟨y, hy, hyt, rest, hrest, hsub⟩ := landing_delivery hp h
  obtain rfl : x = { y with slots := rest } :=
    List.inj_on_of_nodup_map hn hx hrest (htrace.trans hyt.symm)
  exact (List.nodup_cons.mp ((ho.distinct y hy).sublist hsub)).1

/-- The decision of a landing apply was a proposal's. -/
theorem landing_slot {p : Landing} (hp : landing env w l = some p) :
    ∃ x ∈ w.deliveries, x.tenant = p.tenant ∧ x.trace = p.trace ∧ .scored p.governed p.seen ∈ x.slots := by
  obtain ⟨d, x, rest, -, hx, ht, htr, hnext, -⟩ := landing_some hp
  exact ⟨x, List.mem_of_getElem? hx, ht, htr, (next_apply_mem hnext).1⟩

theorem any_isScored {ss : List Slot} {seen : List AssertionId} (h : .scored g seen ∈ ss) :
    ss.any Slot.isScored = true := List.any_eq_true.mpr ⟨_, h, rfl⟩

/-- The rows of a `ONE` key stay a line. -/
theorem step_line (h : step_governed env w l = some w') (ht : Orderly env w) (hone : env.deps.one key.2.2.2) :
    Lined (w'.db.under key) := by
  have hstep := (step_of_governed h).1
  cases hp : landing env w l with
  | none =>
      obtain ⟨f, hf, hunder⟩ := under_unlanded (step_unlanded hp ht.wf h)
      rw [hunder]
      exact (ht.serial.line key hone).map (fun r => by rw [hf]) fun r => by rw [hf]
  | some p =>
      obtain ⟨-, -, -, -, -, -, -, -, hl⟩ := landing_some hp
      rw [(step_landing hp ht.wf hstep).1]
      by_cases hkey : p.governed.key p.tenant = key
      · subst hkey
        obtain ⟨x, hx, hxt, -, hslot⟩ := landing_slot hp
        have hj := (ht.serial.judged x hx _ _ hslot hone).2
        exact lined_landed ht.wf hl (ht.fresh p hp) (ht.serial.line _ hone) (hxt ▸ hj)
      · rw [under_other ht.toReady hp (ht.fresh p hp) hkey]
        exact ht.serial.line key hone

/-- A proposal that has a decision left had one before, or is the one being scored. -/
theorem step_isScored (h : step env w l = some w') {x : Delivery} (hx : x ∈ w'.deliveries)
    (hs : x.slots.any Slot.isScored = true) :
    (∃ y ∈ w.deliveries, y.trace = x.trace ∧ y.slots.any Slot.isScored = true) ∨
      ∃ d i reply, l = .score d i reply ∧ ∃ y ∈ w.deliveries[d]?, y.trace = x.trace := by
  obtain ⟨s, hsx, hscored⟩ := List.any_eq_true.mp hs
  cases step_slotSteps h hx hsx with
  | kept hy _ htr hsy => exact Or.inl ⟨_, hy, htr, List.any_eq_true.mpr ⟨s, hsy, hscored⟩⟩
  | failed => cases hscored
  | arrived _ _ _ => cases hscored
  | scored hl hy _ htr _ _ => exact Or.inr ⟨_, _, _, hl, _, hy, htr⟩

theorem step_alone (h : step env w l = some w') (ha : Apart env.deps w.deliveries) (hturn : InTurn w l) :
    ∀ x ∈ w'.deliveries, ∀ y ∈ w'.deliveries, x.slots.any Slot.isScored = true →
      y.slots.any Slot.isScored = true → x.trace = y.trace := by
  -- only the proposal being scored may have decisions left beside it
  have beside : ∀ {d i reply y z}, l = .score d i reply → y ∈ w.deliveries[d]? → z ∈ w.deliveries →
      z.slots.any Slot.isScored = true → z.trace = y.trace := by
    rintro d i reply y z rfl hy hz hzs
    by_contra hne
    rw [hturn.2 y hy z hz hne] at hzs
    cases hzs
  intro x hx y hy hxs hys
  rcases step_isScored h hx hxs with ⟨x', hx', hxt, hxs'⟩ | ⟨d, i, reply, hl, z, hz, hzt⟩
  · rcases step_isScored h hy hys with ⟨y', hy', hyt, hys'⟩ | ⟨d, i, reply, hl, z, hz, hzt⟩
    · exact hxt.symm.trans ((ha.alone x' hx' y' hy' hxs' hys').trans hyt)
    · exact hxt.symm.trans ((beside hl hz hx' hxs').trans hzt)
  · rcases step_isScored h hy hys with ⟨y', hy', hyt, hys'⟩ | ⟨d', i', reply', hl', z', hz', hzt'⟩
    · exact hzt.symm.trans ((beside hl hz hy' hys').symm.trans hyt)
    · obtain ⟨rfl, -, -⟩ := Label.score.inj (hl.symm.trans hl')
      obtain rfl := Option.some.inj (hz.symm.trans hz')
      exact hzt.symm.trans hzt'

/-- A slot's candidate was in its proposal before, or arrives with it. -/
theorem step_candidate (h : step env w l = some w') {x : Delivery} (hx : x ∈ w'.deliveries) {s : Slot}
    (hs : s ∈ x.slots) {c : MemoryCandidate} (hc : c ∈ s.candidate) :
    (∃ y ∈ w.deliveries, y.tenant = x.tenant ∧ y.trace = x.trace ∧ ∃ s' ∈ y.slots, c ∈ s'.candidate) ∨
      ∃ ns cands, l = .deliver x.tenant ns x.trace cands ∧ c ∈ cands := by
  rcases step_slotSteps h hx hs with ⟨hy, ht, htr, hsy⟩ | _ | ⟨hl, -, hmem⟩ | ⟨-, hy, ht, htr, hwait, hg⟩
  · exact Or.inl ⟨_, hy, ht, htr, s, hsy, hc⟩
  · cases hc
  · obtain rfl := Option.some.inj hc
    exact Or.inr ⟨_, _, hl, hmem⟩
  · obtain ⟨rfl, -⟩ := score_candidate_ok hg
    obtain rfl := Option.some.inj hc
    exact Or.inl ⟨_, List.mem_of_getElem? hy, ht, htr, _, List.mem_of_getElem? hwait, rfl⟩

theorem step_distinct (h : step env w l = some w') (hd : Apart env.deps w.deliveries)
    (hsingle : l.single env.deps) (hnew : ∀ t ∈ l.delivers, t ∉ w.traces) :
    ∀ x ∈ w'.deliveries, ∀ y ∈ w'.deliveries, x.trace = y.trace → ∀ s ∈ x.slots, ∀ s' ∈ y.slots,
      ∀ c ∈ s.candidate, ∀ c' ∈ s'.candidate, env.deps.one c.predicate → ∀ key,
        c.key env.deps x.tenant = .ok key → c'.key env.deps y.tenant = .ok key → c' = c := by
  intro x hx y hy htrace s hs s' hs' c hc c' hc' hone key hk hk'
  rcases step_candidate h hx hs hc with ⟨x', hx', hxt, hxtr, q, hq, hcq⟩ | ⟨ns, cands, rfl, hmem⟩
  · rcases step_candidate h hy hs' hc' with ⟨y', hy', hyt, hytr, q', hq', hcq'⟩ | ⟨ns, cands, rfl, hmem⟩
    · exact hd.distinct x' hx' y' hy' (hxtr.trans (htrace.trans hytr.symm)) q hq q' hq' c hcq c' hcq' hone
        key (hxt ▸ hk) (hyt ▸ hk')
    · exact absurd (List.mem_map_of_mem hx') (hxtr ▸ htrace ▸ hnew _ rfl)
  · rcases step_candidate h hy hs' hc' with ⟨y', hy', -, hytr, -⟩ | ⟨ns', cands', hl, hmem'⟩
    · exact absurd (List.mem_map_of_mem hy') (hytr ▸ htrace ▸ hnew _ rfl)
    · obtain ⟨ht, -, -, rfl⟩ := Label.deliver.inj hl
      exact hsingle c hmem c' hmem' hone key (by rw [hk]; rfl) (by rw [ht, hk']; rfl)

/-- Of a row's columns, with every event dispatched, its key and its pointer decide what a search sees. -/
theorem readable_quiet (ht : Orderly env w) (hq : w.db.Quiet) {ns : Namespace} {sid : EntityId}
    {predicate : String} : w.db.assertions.filter (readable tenant ns sid predicate) =
      (w.db.under (tenant, ns, sid, predicate)).filter fun r => r.superseded_by.isNone := by
  rw [Db.under, List.filter_filter]
  refine List.filter_congr fun r hr => ?_
  have hended : r.valid_to.isNone = r.superseded_by.isNone := by
    rw [Bool.eq_iff_iff, Option.isNone_iff_eq_none, Option.isNone_iff_eq_none]
    exact ht.threaded.ended r hr
  rw [Bool.eq_iff_iff, readable_iff]
  simp only [ht.visible hq hr, (ht.threaded.read r hr).1, AssertionRow.live, (ht.unspoiled r hr).1, hended,
    Option.isNone_none, Bool.and_true, true_and, and_true, Bool.and_eq_true, beq_iff_eq]
  tauto

/-- A read that comes to what is served of a `ONE` key finds its last row, if there is one. -/
theorem readable_seen (ht : Orderly env w) (hq : w.db.Quiet) {plan : Plan} (hplan : plan.Conforms w.db)
    {ns : Namespace} {sid : EntityId} {predicate : String} (hone : env.deps.one predicate)
    (hcomes : ∀ r ∈ w.db.under (tenant, ns, sid, predicate), r.served = true →
      r ∈ (plan.view w.db).assertions) :
    (plan.view w.db).assertions.filter (readable tenant ns sid predicate) =
      (w.db.under (tenant, ns, sid, predicate)).getLast?.toList := by
  have hrows : w.db.assertions.filter (readable tenant ns sid predicate) =
      (w.db.under (tenant, ns, sid, predicate)).getLast?.toList :=
    (readable_quiet ht hq).trans (ht.serial.line (tenant, ns, sid, predicate) hone).open_eq
  have hperm : ((plan.view w.db).assertions.filter (readable tenant ns sid predicate)).Perm
      (w.db.assertions.filter (readable tenant ns sid predicate)) := by
    refine (List.perm_ext_iff_of_nodup ((Plan.view_nodup ht.wf.ids_nodup hplan).filter _)
      ((List.Nodup.of_map _ ht.wf.ids_nodup).filter _)).mpr fun r => ?_
    rw [List.mem_filter, List.mem_filter]
    refine ⟨fun ⟨hr, hread⟩ => ⟨Plan.view_subset hplan hr, hread⟩, fun ⟨hr, hread⟩ => ⟨?_, hread⟩⟩
    obtain ⟨hkey, hvisible, hlive, -⟩ := readable_iff.mp hread
    exact hcomes r (mem_under.mpr ⟨hr, hkey⟩) (served_iff.mpr ⟨hvisible, hlive⟩)
  rw [hrows] at hperm
  cases hlast : (w.db.under (tenant, ns, sid, predicate)).getLast? with
  | none => exact List.perm_nil.mp (by rwa [hlast] at hperm)
  | some r => exact List.perm_singleton.mp (by rwa [hlast] at hperm)

/-- A candidate scored in turn is judged against the rows of its key, where its read comes to what is
    served of them. -/
theorem judged_scored (ht : Orderly env w) (hq : w.db.Quiet) {plan : Plan} (hplan : plan.Conforms w.db)
    {c : MemoryCandidate} {reply : ScoreReply}
    (hg : score_candidate env.deps tenant c reply (plan.view w.db) = .ok g)
    (hcomes : ∀ r ∈ w.db.under (g.key tenant), r.served = true → r ∈ (plan.view w.db).assertions)
    (hfrom : c.valid_from = none) (hto : c.valid_to = none) (hone : env.deps.one c.predicate) :
    Judged (w.db.under (g.key tenant)) g := by
  obtain ⟨rfl, -⟩ := score_candidate_ok hg
  obtain ⟨spec, hspec, hcard⟩ := Option.map_eq_some_iff.mp hone
  have hrows : (plan.view w.db).assertions.filter (readable tenant g.candidate.namespace g.subject_id
      g.candidate.predicate) = (w.db.under (g.key tenant)).getLast?.toList :=
    readable_seen ht hq hplan hone hcomes
  intro hauto
  cases hlast : (w.db.under (g.key tenant)).getLast? with
  | none =>
      have hconflict := score_candidate_novel hg (by rw [hrows, hlast]; rfl)
      exact Or.inl ⟨rfl, by simp [refusal, hauto, hconflict, no_conflict, Resolution.COEXIST],
        by simp [retires, hconflict, no_conflict, Resolution.COEXIST]⟩
  | some r =>
      have hr : r ∈ w.db.assertions := (mem_under.mp (List.mem_of_getLast? hlast)).1
      obtain ⟨v, hv, hdiffers, hrestates⟩ :=
        score_candidate_judged hg hspec hcard hfrom hto (by rw [hrows, hlast]; rfl)
      refine Or.inr ⟨r, rfl, ht.visible hq hr, v, hv, ?_⟩
      cases hobj : v.pyEq g.candidate.object with
      | false =>
          obtain ⟨hsup, hinc⟩ := hdiffers hobj
          exact Or.inl ⟨rfl, by simp [refusal, hauto, hsup], by rw [retires, if_pos hsup, hinc]⟩
      | true =>
          rcases hrestates hobj with hmerge | hno
          · exact Or.inr ⟨rfl, by simp [refusal, hauto, hmerge]⟩
          · exact absurd hauto hno

theorem step_judged (h : step_governed env w l = some w') (ht : Orderly env w) (hturn : InTurn w l)
    (hn : w'.traces.Nodup) : ∀ x ∈ w'.deliveries, ∀ g seen, .scored g seen ∈ x.slots →
      env.deps.one g.candidate.predicate → g.candidate.key env.deps x.tenant = .ok (g.key x.tenant) ∧
        Judged (w'.db.under (g.key x.tenant)) g := by
  have hstep := (step_of_governed h).1
  intro x hx g seen hs hone
  rcases step_slotSteps hstep hx hs with
    @⟨y, _, hy, hyt, hytr, hsy⟩ | _ | _ | @⟨d, i, reply, y, c, _, rfl, hy, hyt, hytr, hc, hg⟩
  · obtain ⟨hkey, hj⟩ := hyt ▸ ht.serial.judged y hy g seen hsy hone
    refine ⟨hkey, ?_⟩
    cases hp : landing env w l with
    | none =>
        obtain ⟨f, hf, hunder⟩ := under_unlanded (step_unlanded hp ht.wf h)
        rw [hunder]
        refine hj.map hf fun r hr hv => ?_
        have hmem : f r ∈ w'.db.assertions :=
          (mem_under.mp (hunder (g.key x.tenant) ▸ List.mem_map_of_mem hr)).1
        exact ((step_evolves hstep ht.wf).row_of_id (step_wf hstep ht.wf) (mem_under.mp hr).1 hmem
          (by rw [hf])).visible hv
    | some p =>
        rw [(step_landing hp ht.wf hstep).1]
        by_cases hsame : p.governed.key p.tenant = g.key x.tenant
        · -- it is the one candidate of its proposal for this key, and it is taken
          obtain ⟨z, hz, hzt, hztr, hsz⟩ := landing_slot hp
          have htrace : y.trace = z.trace := ht.serial.alone y hy z hz (any_isScored hsy) (any_isScored hsz)
          have hpred : g.candidate.predicate = p.governed.candidate.predicate :=
            (congrArg (fun key => key.2.2.2) hsame).symm
          obtain ⟨hkey', -⟩ := ht.serial.judged z hz _ _ hsz (hpred ▸ hone)
          have heq := ht.serial.distinct y hy z hz htrace _ hsy _ hsz _ rfl _ rfl hone _ (hyt ▸ hkey)
            (by rw [hkey', hzt, hsame, hyt])
          refine absurd (candidate_pending hs rfl) (heq ▸ landing_taken hp hstep ht.owned hn hx ?_)
          exact hytr.symm.trans (htrace.trans hztr)
        · rw [under_other ht.toReady hp (ht.fresh p hp) hsame]
          exact hj
  · obtain ⟨-, -, hfrom, hto⟩ := ht.slots y (List.mem_of_getElem? hy) _ (List.mem_of_getElem? hc)
    have hdb : w'.db = w.db := by
      cases step_effect ht.wf hstep with
      | quiet hdb => exact hdb
    obtain ⟨rfl, -⟩ := score_candidate_ok hg
    have hexact : Plan.exact.Conforms w.db := trivial
    exact ⟨score_candidate_key hg, hdb ▸ judged_scored ht hturn.1 hexact hg
      (fun r hr _ => (mem_under.mp hr).1) hfrom hto hone⟩

/-- What was written is told by the entries that wrote. -/
theorem written_ids_writes (log : List LogEntry) :
    written_ids key (log.filter fun e => e.written.isSome) = written_ids key log := by
  unfold written_ids
  rw [List.filter_filter]
  induction log with
  | nil => rfl
  | cons e log ih =>
      cases he : e.written with
      | none => by_cases hkey : e.governed.key e.tenant = key <;> simp [he, hkey, ih]
      | some aid => by_cases hkey : e.governed.key e.tenant = key <;> simp [he, hkey, ih]

/-- The rows of each key are those the log says were written, in its order. -/
theorem step_written_ids (h : step_governed env w l = some w') (ht : Orderly env w) (key : Key) :
    (w'.db.under key).map AssertionRow.id = written_ids key w'.log := by
  cases hp : landing env w l with
  | none =>
      have hu := step_unlanded hp ht.wf h
      obtain ⟨f, hf, hunder⟩ := under_unlanded hu
      have hids : AssertionRow.id ∘ f = AssertionRow.id := by
        funext r
        rw [Function.comp_apply, hf]
      rw [hunder, List.map_map, hids, ht.logged, ← written_ids_writes w'.log, hu.log, written_ids_writes]
  | some p =>
      obtain ⟨-, -, -, -, -, -, -, -, hl⟩ := landing_some hp
      obtain ⟨hdb, hlog⟩ := step_landing hp ht.wf (step_of_governed h).1
      have hids : AssertionRow.id ∘ AssertionRow.after env.deps.uuid p.clock p.governed =
          AssertionRow.id := funext fun r => after_id _ r
      rw [hdb, hlog, under_landed ht.wf hl (ht.fresh p hp), List.map_append, List.map_map, hids, ht.logged]
      by_cases hkey : p.governed.key p.tenant = key <;>
        simp [written_ids, List.filter_append, hkey, LogEntry.written, landed_outcome]

/-- CORRECT: a step in turn keeps the rows of every `ONE` key in line. -/
theorem step_turn (h : step_governed env w l = some w') (ht : Orderly env w) (hturn : InTurn w l)
    (hsingle : l.single env.deps) (hnew : ∀ t ∈ l.delivers, t ∉ w.traces ∧ '/' ∉ t.toList) :
    Orderly env w' := by
  have hstep := (step_of_governed h).1
  have htraces := step_traces hstep
  have hn : w'.traces.Nodup := by
    rw [htraces]
    cases hd : l.delivers with
    | none => simpa using ht.traces
    | some t =>
        rw [Option.toList_some, ← List.concat_eq_append]
        exact List.Nodup.concat (hnew t hd).1 ht.traces
  refine { toReady := step_ready h ht.toReady, threaded := step_threaded h ht.toReady ht.fresh ht.threaded
           owned := step_owned h ht.wf ht.slots ht.owned, traces := hn, words := ?_
           logged := step_written_ids h ht
           serial := ⟨⟨step_alone hstep ht.serial.toApart hturn,
             step_distinct hstep ht.serial.toApart hsingle fun t hd => (hnew t hd).1⟩,
             fun key hone => step_line h ht hone, step_judged h ht hturn hn⟩ }
  intro t hmem
  rcases List.mem_append.mp (htraces ▸ hmem) with hmem | hmem
  · exact ht.words t hmem
  · exact (hnew t (Option.mem_toList.mp hmem)).2

/-- A scoring changes the deliveries and nothing else. -/
theorem step_score {d i : ℕ} {reply : ScoreReply} (h : step env w (.score d i reply) = some w') :
    w' = { w with deliveries := w'.deliveries } := by
  simp only [step, Option.bind_eq_bind, Option.bind_eq_some_iff] at h
  obtain ⟨x, -, h⟩ := h
  split at h
  · obtain rfl := Option.some.inj h
    rfl
  · cases h

theorem Ready.rescored {ds : List Delivery} (hw : Ready env w) (hslots : SlotsOk { w with deliveries := ds }) :
    Ready env { w with deliveries := ds } where
  wf := hw.wf
  slots := hslots
  relayed :=
    { passes := fun y hy => ⟨(hw.relayed.passes y hy).todo, (hw.relayed.passes y hy).loaded,
        (hw.relayed.passes y hy).written⟩
      edges := hw.relayed.edges, visible := hw.relayed.visible, dispatched := hw.relayed.dispatched }
  counted := ⟨hw.counted.capped, hw.counted.tried, hw.counted.held⟩
  unspoiled := hw.unspoiled

theorem inTurn_seen {plan : Plan} : InTurn (w.seen plan) l ↔ InTurn w l := by
  cases plan <;> exact Iff.rfl

/-- CORRECT: a scoring in turn, whose read comes to what is served of its key, keeps the rows of every `ONE`
    key in line. -/
theorem score_turn {plan : Plan} {d i : ℕ} {reply : ScoreReply}
    (h : step env (w.seen plan) (.score d i reply) = some w') (ht : Orderly env w)
    (hplan : plan.Conforms w.db) (hturn : InTurn w (.score d i reply))
    (hcomes : ∀ key ∈ Label.scores env.deps w (.score d i reply), ∀ r ∈ w.db.under key, r.served = true →
      r ∈ (plan.view w.db).assertions) : Orderly env { w' with db := w.db } := by
  have htraces : w'.traces = w.traces := (step_traces h).trans (List.append_nil _)
  have halone := step_alone h (w := w.seen plan) ht.serial.toApart (inTurn_seen.mpr hturn)
  have hdistinct := step_distinct h (w := w.seen plan) ht.serial.toApart trivial nofun
  have hpending := step_pending h (w := w.seen plan) ht.owned.distinct
  have hused := fun r hr => step_used h (w := w.seen plan) (ht.owned.used r hr)
  have hsteps := fun x => @step_slotSteps _ env (w.seen plan) _ _ h x
  obtain ⟨ds, rfl⟩ : ∃ ds, w' = { w.seen plan with deliveries := ds } := ⟨_, step_score h⟩
  change Orderly env { w with deliveries := ds }
  have hslots : SlotsOk { w with deliveries := ds } := by
    intro x hx s hs
    rcases (hsteps x hx hs).origin with
      ⟨hy, htn, htr, hsy⟩ | _ | ⟨htn, htr, hf, hto⟩ | ⟨hy, htn, htr, hc, hg⟩
    · exact htn ▸ htr ▸ ht.slots _ hy _ hsy
    · exact trivial
    · exact ⟨htn, htr, hf, hto⟩
    · obtain ⟨hct, hctr, -, -⟩ := htn ▸ htr ▸ ht.slots _ hy _ hc
      obtain ⟨hstamp, hretires⟩ := scored_ok hct hctr hg
      refine ⟨hstamp, fun old hold => ?_⟩
      obtain ⟨hseen, r, hr, hrest⟩ := hretires old hold
      exact ⟨hseen, r, Plan.view_subset hplan hr, hrest⟩
  have hjudged : ∀ x ∈ ds, ∀ g seen, .scored g seen ∈ x.slots → env.deps.one g.candidate.predicate →
      g.candidate.key env.deps x.tenant = .ok (g.key x.tenant) ∧
        Judged (w.db.under (g.key x.tenant)) g := by
    intro x hx g seen hs hone
    rcases hsteps x hx hs with
      @⟨y, _, hy, hyt, -, hsy⟩ | _ | _ | @⟨d, i, reply, y, c, _, hl, hy, hyt, -, hc, hg⟩
    · exact hyt ▸ ht.serial.judged y hy g seen hsy hone
    · obtain ⟨rfl, rfl, rfl⟩ := Label.score.inj hl
      obtain ⟨-, -, hfrom, hto⟩ := ht.slots y (List.mem_of_getElem? hy) _ (List.mem_of_getElem? hc)
      obtain ⟨rfl, -⟩ := score_candidate_ok hg
      have hkey := score_candidate_key hg
      have hscores : Label.scores env.deps w (.score d i reply) = some (g.key x.tenant) := by
        have hy' : w.deliveries[d]? = some y := hy
        simp only [Label.scores, hy', hc, Option.bind_eq_bind, Option.bind_some, if_pos hone, hyt, hkey]
        rfl
      exact ⟨hkey, judged_scored ht hturn.1 hplan hg (hcomes _ hscores) hfrom hto hone⟩
  exact
    { toReady := ht.toReady.rescored hslots, threaded := ht.threaded
      owned := ⟨hpending, hused⟩
      traces := (congrArg List.Nodup htraces).mpr ht.traces
      words := fun t hmem => ht.words t (htraces ▸ hmem)
      logged := ht.logged
      serial := ⟨⟨halone, hdistinct⟩, ht.serial.line, hjudged⟩ }

/-- A step under a plan is one of the governed system, or a scoring of what its read comes to. -/
theorem planned_cases (h : step_planned env w t = some w') : step_governed env w t.label = some w' ∨
    ∃ d i reply v, t.label = .score d i reply ∧
      step env (w.seen (t.plan w.db)) (.score d i reply) = some v ∧ w' = { v with db := w.db } := by
  unfold step_planned at h
  split at h
  · next d i reply hl =>
      obtain ⟨v, hv, rfl⟩ := Option.map_eq_some_iff.mp h
      exact Or.inr ⟨d, i, reply, v, hl, hv, rfl⟩
  · exact Or.inl h

/-- CORRECT: so does a step in turn. -/
theorem planned_turn (h : step_planned env w t = some w') (ht : Orderly env w) (hplan : Conforming w t)
    (hcomes : Comes env w t) (hturn : InTurn w t.label) (hsingle : t.label.single env.deps)
    (hnew : ∀ trace ∈ t.label.delivers, trace ∉ w.traces ∧ '/' ∉ trace.toList) : Orderly env w' := by
  rcases planned_cases h with h | ⟨d, i, reply, v, hl, hv, rfl⟩
  · exact step_turn h ht hturn hsingle hnew
  · rw [hl] at hturn
    unfold Comes at hcomes
    rw [hl] at hcomes
    exact score_turn hv ht hplan hturn hcomes

theorem planned_traces (h : step_planned env w t = some w') :
    w'.traces = w.traces ++ t.label.delivers.toList := by
  rcases planned_cases h with h | ⟨d, i, reply, v, hl, hv, rfl⟩
  · exact step_traces (step_of_governed h).1
  · have htraces := step_traces hv
    rw [hl]
    exact htraces

/-! ### The value -/

/-- The value of a key's last row, visible or not. -/
def Db.current (db : Db) (key : Key) : Option ObjectValue :=
  (db.under key).getLast?.bind AssertionRow.value

/-- What is served of a `ONE` key is its last row, once it is visible. -/
theorem Orderly.served (ht : Orderly env w) (hone : env.deps.one key.2.2.2) :
    (w.db.under key).filter AssertionRow.served =
      (w.db.under key).getLast?.toList.filter AssertionRow.visible := by
  rw [← (ht.serial.line key hone).open_eq, List.filter_filter]
  refine List.filter_congr fun r hr => ?_
  have hmem := (mem_under.mp hr).1
  have hended : r.valid_to.isNone = r.superseded_by.isNone := by
    rw [Bool.eq_iff_iff, Option.isNone_iff_eq_none, Option.isNone_iff_eq_none]
    exact ht.threaded.ended r hmem
  simp [AssertionRow.served, AssertionRow.live, (ht.unspoiled r hmem).1, hended]

/-- One row at most is served of a `ONE` key. -/
theorem Orderly.one_served (ht : Orderly env w) (hone : env.deps.one key.2.2.2) {q : AssertionRow}
    (hr : r ∈ w.db.under key) (hq : q ∈ w.db.under key) (hserved : r.served = true)
    (hserved' : q.served = true) : q = r := by
  have hlast : ∀ p ∈ w.db.under key, p.served = true → (w.db.under key).getLast? = some p := by
    intro p hp hs
    have hmem : p ∈ (w.db.under key).filter AssertionRow.served := List.mem_filter.mpr ⟨hp, hs⟩
    rw [ht.served hone] at hmem
    exact Option.mem_toList.mp (List.mem_of_mem_filter hmem)
  exact Option.some.inj ((hlast q hq hserved').symm.trans (hlast r hr hserved))

/-- An auto-write writes if and only if its value differs from every value served. -/
theorem Orderly.writes_iff (ht : Orderly env w) (hone : env.deps.one key.2.2.2)
    (hj : Judged (w.db.under key) g) (hauto : g.record.decision = .AUTO_WRITE) :
    (∀ v ∈ w.db.served_values key, v.pyEq g.candidate.object = false) ↔ refusal g = none := by
  rw [Db.served_values, ht.served hone]
  rcases hj hauto with ⟨hlast, hw, -⟩ | ⟨r, hr, hvis, v, hv, ⟨hobj, hw, -⟩ | ⟨hobj, hw⟩⟩
  · simp [hlast, hw]
  · simp [Option.mem_def.mp hr, hvis, Option.mem_def.mp hv, hobj, hw]
  · simp [Option.mem_def.mp hr, hvis, Option.mem_def.mp hv, hobj, hw]

/-- In a serial history a decision that writes lands. -/
theorem Orderly.lands (ht : Orderly env w) {d : ℕ} (hu : Unrejected env w (.apply d clock)) {x : Delivery}
    {seen : List AssertionId} {rest : List Slot} (hx : w.deliveries[d]? = some x)
    (hnext : next_apply x.slots = some (g, seen, rest)) (hw : refusal g = none) :
    Lands env.deps x.tenant clock g w.db := by
  have hnew := ht.owned.unused ht.slots ht.traces ht.words (List.mem_of_getElem? hx) (next_apply_mem hnext).1
  cases hret : retires g with
  | none => exact ⟨hw, Or.inl hnew, fun old hold => absurd (hret.symm.trans hold) (by simp)⟩
  | some old =>
      have hok := hu x hx _ hnext (by simp [hret])
      cases happly : apply env.deps x.tenant x.trace clock g w.db with
      | error e => rw [happly] at hok; cases hok
      | ok res => exact ((apply_writes_ok ht.wf hw).mp happly).1

/-- What an apply rewrites is what it writes. -/
theorem Orderly.rewritten (ht : Orderly env w) (clock : ApplyClock)
    (hone : env.deps.one key.2.2.2) {d : ℕ} {x : Delivery}
    {seen : List AssertionId} {rest : List Slot} (hx : w.deliveries[d]? = some x)
    (hnext : next_apply x.slots = some (g, seen, rest)) :
    GuardMem.rewritten key w (.apply d clock) =
      if g.key x.tenant = key ∧ refusal g = none then some g.candidate.object else none := by
  simp only [GuardMem.rewritten, hx, hnext, Option.bind_eq_bind, Option.bind_some]
  refine if_congr (and_congr_right fun hkey => ?_) rfl rfl
  subst hkey
  have hj := (ht.serial.judged x (List.mem_of_getElem? hx) _ _ (next_apply_mem hnext).1 hone).2
  constructor
  · rintro ⟨hauto, hdiffers⟩
    exact (ht.writes_iff hone hj hauto).mp hdiffers
  · intro hw
    exact ⟨auto_of_writes hw, (ht.writes_iff hone hj (auto_of_writes hw)).mpr hw⟩

theorem current_unlanded (hu : Unlanded w w') : w'.db.current key = w.db.current key := by
  obtain ⟨f, hf, hunder⟩ := under_unlanded hu
  have hvalue : AssertionRow.value ∘ f = AssertionRow.value := by
    funext r
    rw [Function.comp_apply, AssertionRow.value, hf]
    rfl
  rw [Db.current, hunder, List.getLast?_map, Option.bind_map, hvalue, Db.current]

theorem current_landed {p : Landing} (ht : Orderly env w) (hp : landing env w l = some p) :
    (landed env.deps p.tenant p.trace p.clock p.governed w.db).current key =
      if p.governed.key p.tenant = key then some p.governed.candidate.object else w.db.current key := by
  obtain ⟨-, -, -, -, -, -, -, -, hl⟩ := landing_some hp
  by_cases hkey : p.governed.key p.tenant = key
  · rw [Db.current, under_landed ht.wf hl (ht.fresh p hp), if_pos hkey, if_pos hkey, List.getLast?_concat]
    simp [AssertionRow.value, fresh_row, assertion_params, fresh]
  · rw [Db.current, under_other ht.toReady hp (ht.fresh p hp) hkey, if_neg hkey, Db.current]

/-- CORRECT: a step leaves the last value that was written over a different one. -/
theorem step_last_value (h : step_governed env w l = some w') (ht : Orderly env w) (hu : Unrejected env w l)
    (hone : env.deps.one key.2.2.2) :
    w'.db.current key = (GuardMem.rewritten key w l).or (w.db.current key) := by
  have hstep := (step_of_governed h).1
  have quiet : landing env w l = none → GuardMem.rewritten key w l = none →
      w'.db.current key = (GuardMem.rewritten key w l).or (w.db.current key) := fun hp hr => by
    rw [hr, current_unlanded (step_unlanded hp ht.wf h), Option.none_or]
  cases l with
  | apply d clock =>
      have happly := hstep
      simp only [step, step_apply, Option.bind_eq_bind, Option.bind_eq_some_iff] at happly
      obtain ⟨x, hx, ⟨g, seen, rest⟩, hnext, -⟩ := happly
      have hrw := ht.rewritten clock hone hx hnext
      by_cases hw : refusal g = none
      · have hl := ht.lands hu hx hnext hw
        have hp : landing env w (.apply d clock) = some ⟨x.tenant, x.trace, clock, g, seen⟩ := by
          rw [landing_apply hx hnext, if_pos hl]
        rw [hrw, (step_landing hp ht.wf hstep).1, current_landed ht hp]
        by_cases hkey : g.key x.tenant = key <;> simp [hkey, hw]
      · refine quiet ?_ (by rw [hrw, if_neg fun hand => hw hand.2])
        rw [landing_apply hx hnext, if_neg fun hl => hw hl.writes]
  | _ => exact quiet rfl rfl

theorem planned_last_value (h : step_planned env w t = some w') (ht : Orderly env w)
    (hu : Unrejected env w t.label) (hone : env.deps.one key.2.2.2) :
    w'.db.current key = (GuardMem.rewritten key w t.label).or (w.db.current key) := by
  rcases planned_cases h with h | ⟨d, i, reply, v, hl, -, rfl⟩
  · exact step_last_value h ht hu hone
  · rw [hl]
    rfl

/-- What a label scores a candidate of is a `ONE` key. -/
theorem scores_one (h : key ∈ l.scores deps w) : deps.one key.2.2.2 := by
  cases l with
  | score d i reply =>
      simp only [Label.scores, Option.bind_eq_bind, Option.mem_def, Option.bind_eq_some_iff] at h
      obtain ⟨x, -, h⟩ := h
      split at h
      · next c _ =>
          split at h
          · next hone =>
              cases hkey : c.key deps x.tenant with
              | error e =>
                  rw [hkey] at h
                  cases h
              | ok k =>
                  rw [hkey] at h
                  obtain rfl := Option.some.inj h
                  simp only [MemoryCandidate.key, bind_ok, Except.ok.injEq] at hkey
                  obtain ⟨_, -, _, -, rfl⟩ := hkey
                  exact hone
          · cases h
      · cases h
  | _ => cases h

/-- A full scan of an index with few rows of others comes to what is served. -/
theorem Roomy.comes (h : Roomy env w t) (ht : Orderly env w) (hplan : Conforming w t) : Comes env w t := by
  intro key hkey r hr hserved
  obtain ⟨hfull, hfew⟩ := h key hkey
  unfold Conforming at hplan
  cases hp : t.plan w.db with
  | exact => exact (mem_under.mp hr).1
  | hnsw scan =>
      rw [hp] at hplan hfull
      obtain ⟨hmem, hrkey⟩ := mem_under.mp hr
      obtain ⟨hvisible, hlive⟩ := served_iff.mp hserved
      have hindexed : r ∈ partial_index w.db := by
        rw [AssertionRow.live, Bool.and_eq_true] at hlive
        exact List.mem_filter.mpr ⟨hmem, by simp [hvisible, hlive.1, (ht.threaded.read r hmem).1]⟩
      obtain ⟨q, hq, hqkey⟩ := (scans_hit_iff (partial_index_nodup ht.wf.ids_nodup)
        ⟨r, hindexed, by simpa using hrkey⟩).mpr (hfew ⟨r, hr, hserved⟩) scan hplan.1 hplan.2.1 hfull
      obtain ⟨hqmem, hqindexed⟩ := List.mem_filter.mp (hplan.2.1 hq)
      simp only [Bool.and_eq_true] at hqindexed
      have hqlive : q.live = true := by
        rw [AssertionRow.live, hqindexed.1.1, (ht.unspoiled q hqmem).1]
        rfl
      have hsame := ht.one_served (scores_one hkey) hr (mem_under.mpr ⟨hqmem, by simpa using hqkey⟩) hserved
        (served_iff.mpr ⟨hqindexed.1.2, hqlive⟩)
      exact hsame ▸ hq

/-! ### A whole history -/

theorem turn_init : Orderly env env.init where
  toReady := ready_init
  threaded := threaded_init
  owned := ⟨fun _ hx => absurd hx List.not_mem_nil, fun _ hr => absurd hr List.not_mem_nil⟩
  traces := List.nodup_nil
  words := fun _ ht => absurd ht List.not_mem_nil
  logged := fun _ => rfl
  serial := serial_init

/-- From a world in turn, a history that stays so ends in one, with the last value written since. -/
theorem run_turns : ∀ {ts : List Planned} {w w' : World G}, run (step_planned env) w ts = some w' →
    Orderly env w → (∀ t ∈ ts, t.label.single env.deps) →
    (w.traces ++ (ts.map Planned.label).filterMap Label.delivers).Nodup →
    (∀ trace ∈ (ts.map Planned.label).filterMap Label.delivers, '/' ∉ trace.toList) →
    Along (step_planned env) Conforming w ts →
    Along (step_planned env) (fun w t => Comes env w t ∨ Roomy env w t) w ts →
    Along (step_planned env) (fun w t => InTurn w t.label) w ts →
    Along (step_planned env) (fun w t => Unrejected env w t.label) w ts →
    Orderly env w' ∧ ∀ key : Key, env.deps.one key.2.2.2 →
      w'.db.current key = (last_written env key w ts).or (w.db.current key)
  | [], w, w', h, ht, _, _, _, _, _, _, _ => by
      obtain rfl := Option.some.inj h
      exact ⟨ht, fun _ _ => rfl⟩
  | t :: ts, w, w', h, ht, hsingle, hn, hwords, ⟨hplan, hplans⟩, ⟨hreads, hreach⟩, ⟨hturn, hturns⟩,
      ⟨hu, hus⟩ => by
      have hcomes : Comes env w t := hreads.elim id fun hroomy => hroomy.comes ht hplan
      obtain ⟨v, hv, hrun⟩ := run_cons.mp h
      have hsplit : w.traces ++ ((t :: ts).map Planned.label).filterMap Label.delivers =
          v.traces ++ (ts.map Planned.label).filterMap Label.delivers := by
        rw [planned_traces hv, List.append_assoc, List.map_cons]
        cases hd : t.label.delivers <;> simp [hd]
      have hnew : ∀ trace ∈ t.label.delivers, trace ∉ w.traces ∧ '/' ∉ trace.toList := by
        intro trace hd
        have hmem : trace ∈ ((t :: ts).map Planned.label).filterMap Label.delivers :=
          List.mem_filterMap.mpr ⟨t.label, List.mem_cons_self, hd⟩
        exact ⟨fun hold => (List.nodup_append.mp hn).2.2 trace hold trace hmem rfl, hwords trace hmem⟩
      have htv := planned_turn hv ht hplan hcomes hturn (hsingle t List.mem_cons_self) hnew
      have hwords' : ∀ trace ∈ (ts.map Planned.label).filterMap Label.delivers, '/' ∉ trace.toList := by
        intro trace hmem
        obtain ⟨l, hl, hd⟩ := List.mem_filterMap.mp hmem
        exact hwords trace (List.mem_filterMap.mpr ⟨l, List.mem_cons_of_mem _ hl, hd⟩)
      obtain ⟨htw, hvalue⟩ := run_turns hrun htv (fun u hu => hsingle u (List.mem_cons_of_mem _ hu))
        (hsplit ▸ hn) hwords' (hplans v hv) (hreach v hv) (hturns v hv) (hus v hv)
      refine ⟨htw, fun key hone => ?_⟩
      rw [hvalue key hone, planned_last_value hv ht hu hone, last_written, hv, Option.bind_some,
        Option.or_assoc]

theorem next_of_mem {uuid : Uuid5} (hwf : Wf uuid db) (hr : r ∈ db.assertions) :
    db.next r.id = r.superseded_by := by
  ext b
  rw [next_eq_some hwf]
  constructor
  · rintro ⟨q, hq, hid, hs⟩
    exact hwf.eq_of_id hq hr hid ▸ hs
  · exact fun hs => ⟨r, hr, rfl, hs⟩

/-- Where each read of a scoring comes to what is served, or cannot miss it. -/
theorem SerialHistory.writes_last {ts : List Planned} (h : SerialHistory env ts w)
    (hreach : Along (step_planned env) (fun w t => Comes env w t ∨ Roomy env w t) env.init ts)
    (hone : env.deps.one key.2.2.2) : LastWriter env ts key w := by
  obtain ⟨ht, hvalue⟩ := run_turns h.run turn_init h.single h.once.1 h.once.2 h.answered hreach h.in_turn
    h.unrejected
  have hline := ht.serial.line key hone
  have hend : ∀ r ∈ (w.db.under key).getLast?, r.served = true ∧ r.superseded_by = none := by
    intro r hr
    have hmem := (mem_under.mp (List.mem_of_getLast? hr)).1
    have hopen := hline.ends r hr
    have hlive := (ht.threaded.ended r hmem).mpr hopen
    exact ⟨by simp [AssertionRow.served, AssertionRow.live, ht.visible h.relayed hmem, hlive,
      (ht.unspoiled r hmem).1], hopen⟩
  refine ⟨?_, ht.logged key, ?_, hline.linked, hend, ?_⟩
  · have hcurrent : w.db.current key = last_written env key env.init ts :=
      (hvalue key hone).trans Option.or_none
    rw [Db.served_values, ht.served hone, ← hcurrent, Db.current]
    cases hlast : (w.db.under key).getLast? with
    | none => rfl
    | some r =>
        have hv := (served_iff.mp (hend r hlast).1).1
        cases hval : r.value <;> simp [hv, hval]
  · intro r hr
    rcases List.eq_nil_or_concat (w.db.under key) with hnil | ⟨rows, q, hrows⟩
    · rw [hnil] at hr
      cases hr
    · rw [List.concat_eq_append] at hrows
      have hmem := (mem_under.mp (List.mem_of_mem_dropLast hr)).1
      rw [hrows, List.dropLast_concat] at hr
      have hpoints := (hrows ▸ hline).points hr
      exact ⟨fun hlive => hpoints ((ht.threaded.ended r hmem).mp hlive), hpoints⟩
  · exact hline.leads fun r hr => next_of_mem ht.wf (mem_under.mp hr).1

/-- CORRECT: a serial history has last-writer semantics for every key of a `ONE` predicate where each scoring
    under one comes to what is served of its key; so it has, whatever the index scans, where fewer than
    `ef_search` of its rows are others'. -/
theorem last_writer (env : Env G) (ts : List Planned) (w : World G) (h : SerialHistory env ts w)
    (key : Key) (hone : env.deps.one key.2.2.2) :
    (Along (step_planned env) (Comes env) env.init ts → LastWriter env ts key w) ∧
      (Along (step_planned env) (Roomy env) env.init ts → LastWriter env ts key w) :=
  ⟨fun hcomes => h.writes_last (hcomes.mono fun _ _ => Or.inl) hone,
    fun hroomy => h.writes_last (hroomy.mono fun _ _ => Or.inr) hone⟩

theorem planned_wf (h : step_planned env w t = some w') (hwf : Wf env.deps.uuid w.db) :
    Wf env.deps.uuid w'.db := by
  rcases planned_cases h with h | ⟨d, i, reply, v, hl, -, rfl⟩
  · exact step_wf (step_of_governed h).1 hwf
  · exact hwf

section Clinical

open GuardMem.Clinical

def language_key (deps : Deps) : Key :=
  ("clinic", "patient:1", derive_entity_id deps "clinic" "patient:1", "preferred_language")

/-- Each scoring is answered by a scan with perfect recall. -/
def scanned (ls : List Label) : List Planned := ls.map fun l => ⟨l, nearest_scan by_language [1]⟩

/-- Such a scan is one Postgres has. -/
theorem scanned_conforming {env : Env Clinical.Graph} {ls : List Label} : ∀ {w : World Clinical.Graph},
    Wf env.deps.uuid w.db → Along (step_planned env) Conforming w (scanned ls) := by
  induction ls with
  | nil => exact fun _ => trivial
  | cons l ls ih =>
      exact fun hwf => ⟨nearest_scan_conforms _ hwf, fun w' h => ih (planned_wf h hwf)⟩

instance (env : Env G) (w : World G) (t : Planned) : Decidable (Comes env w t) :=
  inferInstanceAs (Decidable (∀ key ∈ t.label.scores env.deps w, ∀ r ∈ w.db.under key, _ → _))

theorem in_turn_last_writer : ∃ w, run (step_planned Clinical.env) Clinical.env.init (scanned in_turn) = some w ∧
    w.db.served_values (language_key Clinical.deps) = [.str "German"] ∧
    LastWriter Clinical.env (scanned in_turn) (language_key Clinical.deps) w := by
  have hlast : (runWith (step_planned Clinical.env) (fun w t => Comes Clinical.env w t ∧ InTurn w t.label ∧
      Unrejected Clinical.env w t.label) Clinical.env.init (scanned in_turn)).any (fun w =>
      w.db.Quiet ∧ w.db.served_values (language_key Clinical.deps) = [.str "German"]) = true := by
    decide +kernel
  obtain ⟨w, hrun, hw⟩ := (Option.any_eq_true _ _).mp hlast
  obtain ⟨hquiet, hserved⟩ := of_decide_eq_true hw
  obtain ⟨hrun, hturns⟩ := run_of_runWith hrun
  refine ⟨w, hrun, hserved, (last_writer Clinical.env (scanned in_turn) w ?_ (language_key Clinical.deps)
    (by decide)).1 (hturns.mono fun _ _ h => h.1)⟩
  exact
    { run := hrun, once := by decide, single := by decide +kernel
      answered := scanned_conforming .empty
      in_turn := hturns.mono fun _ _ h => h.2.1, unrejected := hturns.mono fun _ _ h => h.2.2
      relayed := hquiet }

/-! ### Forty allergies of another patient -/

/-- A patient has one preferred language and any number of allergies. -/
def ward_deps : Deps :=
  { by_language with
    uuid := lettered_uuid
    ontology := fun predicate =>
      if predicate = "allergy" then some { subject := "Patient", cardinality := .MANY, impact := .LOW }
      else Clinical.ontology predicate }

def allergies_env : Env Clinical.Graph := { Clinical.env with deps := ward_deps }

def forty_allergies : List MemoryCandidate :=
  (List.range 40).map fun n =>
    { language "v" (String.singleton (Char.ofNat (48 + n))) "pollen" 10 with
      tenant_id := "ward", «namespace» := "patient:2", predicate := "allergy" }

/-- The event of a candidate's row. -/
def event_of (trace : TraceId) (id : CandidateId) : String :=
  outbox_id lettered_uuid (lettered_uuid.of ("guardmem/assertion/" ++ trace ++ "/" ++ id))

/-- Pass `p` claims these events, and loads, writes and completes each. -/
def relayed (p : ℕ) (events : List String) (t : Time) : List Label :=
  .claim [] events :: events.flatMap fun _ => [.load p, .write p .answers, .complete p t]

/-- The patient's French is revealed, then the allergies, and the patient's German is scored. -/
def beside : List Label :=
  [proposal "t" [language "t" "c_1" "French" 10], scored 0 0, applied 0 20] ++
    relayed 0 [event_of "t" "c_1"] 30 ++
  [.deliver "ward" "patient:2" "v" forty_allergies] ++ (List.range 40).map (scored 1 ·) ++
    List.replicate 40 (applied 1 35) ++
    relayed 1 (forty_allergies.map fun c => event_of "v" c.candidate_id) 40 ++
  [proposal "u" [language "u" "c_1" "German" 45], scored 2 0, applied 2 50] ++
    relayed 2 [event_of "u" "c_1"] 60

/-- The run takes turns, and readers are served both languages. -/
theorem beside_served : (runWith (step_planned allergies_env) (fun w t => InTurn w t.label ∧
    Unrejected allergies_env w t.label) allergies_env.init (scanned beside)).any (fun w =>
    w.db.Quiet ∧ w.db.served_values (language_key ward_deps) = [.str "French", .str "German"]) = true := by
  decide +kernel

/-- The allergies are nearer, so the scoring finds the key empty and German is written beside French. -/
theorem crowded_writer : ¬ ∀ (env : Env Clinical.Graph) (ts : List Planned) (w : World Clinical.Graph),
    SerialHistory env ts w → ∀ key : Key, env.deps.one key.2.2.2 → LastWriter env ts key w := by
  intro h
  obtain ⟨w, hrun, hw⟩ := (Option.any_eq_true _ _).mp beside_served
  obtain ⟨hquiet, hserved⟩ := of_decide_eq_true hw
  obtain ⟨hrun, hturns⟩ := run_of_runWith hrun
  have hserial : SerialHistory allergies_env (scanned beside) w :=
    { run := hrun, once := by decide, single := by decide +kernel
      answered := scanned_conforming .empty
      in_turn := hturns.mono fun _ _ h => h.1, unrejected := hturns.mono fun _ _ h => h.2
      relayed := hquiet }
  have hvalue := (h _ _ w hserial (language_key ward_deps) (by decide +kernel)).value
  rw [hserved] at hvalue
  have hlength : 2 = (last_written allergies_env (language_key ward_deps) allergies_env.init
      (scanned beside)).toList.length := congrArg List.length hvalue
  rw [Option.length_toList] at hlength
  split at hlength <;> omega

end Clinical

end GuardMem
