import GuardMem.Clinical
import GuardMem.Lib.Sweep

/-! One bad event and the rest of its batch.

    A pass counts an attempt for its whole batch before it looks at any of it, and only
    `StoreUnavailable` is caught: an event that raises ends the pass. An event is healthy in a pass if
    it would be finished at its turn were the events that raise passed over. CORRECT: a pass finishes
    its healthy events exactly when none of them comes after one that raises (`fair_iff`), and so over
    any number of passes (`fair_iff_ordered`). -/

namespace GuardMem

open Lib.Table Lib.Transition Lib.Sweep

variable {G : Type}

/-- One call of `run_once` and its environment: what was locked, which rows the claim returned in which
    order, how the graph answers each event, when each is completed. -/
structure RelayPass where
  locked : List String
  batch : List String
  replies : PendingEvent → GraphReply
  clock : PendingEvent → Time

/-- The primary key of `outbox`. -/
def Db.Keyed (db : Db) : Prop := (db.outbox.map OutboxRow.id).Nodup

/-- The event is closed. -/
def Db.Closed (db : Db) (oid : String) : Prop :=
  ∃ o ∈ db.outbox, o.id = oid ∧ o.dispatched_at ≠ none

instance (db : Db) (oid : String) : Decidable (db.Closed oid) :=
  inferInstanceAs (Decidable (∃ o ∈ db.outbox, _ ∧ _))

/-- The event has no attempts left and is not closed. -/
def Db.Starved (cfg : RelayConfig) (db : Db) (oid : String) : Prop :=
  ∃ o ∈ db.outbox, o.id = oid ∧ o.dispatched_at = none ∧ cfg.max_attempts ≤ o.attempts

instance (cfg : RelayConfig) (db : Db) (oid : String) : Decidable (db.Starved cfg oid) :=
  inferInstanceAs (Decidable (∃ o ∈ db.outbox, _ ∧ _))

/-- One event's turn in the loop of `run_once`. -/
def RelayPass.try_event (store : GraphStore G) (p : RelayPass) (e : PendingEvent) (s : Db × G) :
    Except Exc Bool × Db × G :=
  dispatch store (p.replies e) (p.clock e) e s.1 s.2

/-- The claimed events whose payload can be read. -/
def legible_events (batch : List String) (db : Db) : List PendingEvent :=
  (claimed_rows batch (CLAIM_OUTBOX batch db)).filterMap fun o => (pending_from_row o).toOption

/-- What each claimed event comes to at its turn if the ones that raise are passed over. -/
def RelayPass.turns (store : GraphStore G) (p : RelayPass) (s : Db × G) :
    List (Lib.Sweep.Turn PendingEvent Exc) :=
  Lib.Sweep.turns (p.try_event store) (legible_events p.batch s.1) (CLAIM_OUTBOX p.batch s.1, s.2)

/-- The tables and the graph after the pass. -/
def RelayPass.after (store : GraphStore G) (p : RelayPass) (s : Db × G) : Db × G :=
  (run_once store p.replies p.clock p.batch s.1 s.2).2

/-- The pass closes every claimed event whose own load, graph write and completion succeed. -/
def RelayPass.Fair (store : GraphStore G) (p : RelayPass) (s : Db × G) : Prop :=
  ∀ x ∈ p.turns store s, x.finished = true → (p.after store s).1.Closed x.item.outbox_id

/-- Nothing that succeeds comes after what raises: a payload that cannot be read spoils its whole
    batch, an event that raises all that the claim returned after it. -/
def RelayPass.Ordered (store : GraphStore G) (p : RelayPass) (s : Db × G) : Prop :=
  ((∀ o ∈ claimed_rows p.batch (CLAIM_OUTBOX p.batch s.1), (pending_from_row o).isOk = true) ∨
    ∀ x ∈ p.turns store s, x.finished = false) ∧
  (p.turns store s).Pairwise fun x y => x.raised = true → y.finished = false

instance (store : GraphStore G) (p : RelayPass) (s : Db × G) : Decidable (p.Fair store s) :=
  inferInstanceAs (Decidable (∀ x ∈ p.turns store s, _ → _))

instance (store : GraphStore G) (p : RelayPass) (s : Db × G) : Decidable (p.Ordered store s) :=
  inferInstanceAs (Decidable (_ ∧ _))

/-! ### One pass -/

variable {store : GraphStore G} {p : RelayPass} {s : Db × G} {db : Db} {g : G} {e : PendingEvent}

/-- A dispatch that finishes completes its event, and any other leaves the tables alone. -/
theorem RelayPass.try_event_db (p : RelayPass) (store : GraphStore G) (e : PendingEvent)
    (s : Db × G) :
    ((p.try_event store e s).1 = .ok true ∧
      (p.try_event store e s).2.1 = complete e (p.clock e) s.1) ∨
    ((p.try_event store e s).1 ≠ .ok true ∧ (p.try_event store e s).2.1 = s.1) := by
  unfold RelayPass.try_event dispatch
  split
  · exact Or.inr ⟨by simp, rfl⟩
  · exact Or.inr ⟨by simp, rfl⟩
  · split
    · exact Or.inl ⟨rfl, rfl⟩
    · exact Or.inr ⟨by simp, rfl⟩
    · exact Or.inr ⟨by simp, rfl⟩

theorem complete_ids {t : Time} : (complete e t db).outbox.map OutboxRow.id =
    db.outbox.map OutboxRow.id := map_updateWhere fun _ => rfl

theorem closed_complete {t : Time} {oid : String} : (complete e t db).Closed oid ↔
    db.Closed oid ∨ oid = e.outbox_id ∧ oid ∈ db.outbox.map OutboxRow.id := by
  constructor
  · rintro ⟨o, ho, rfl, hd⟩
    obtain ⟨q, hq, rfl⟩ := mem_updateWhere.mp ho
    have hid : ∀ b : Bool, (if b then { q with dispatched_at := some t } else q).id = q.id := by
      intro b; cases b <;> rfl
    rw [hid]
    by_cases hqd : q.dispatched_at = none
    · refine Or.inr ⟨by_contra fun hne => ?_, List.mem_map_of_mem hq⟩
      rw [if_neg (by simp [hne])] at hd
      exact hd hqd
    · exact Or.inl ⟨q, hq, rfl, hqd⟩
  · rintro (⟨o, ho, rfl, hd⟩ | ⟨rfl, hmem⟩)
    · exact ⟨o, mem_updateWhere.mpr ⟨o, ho, if_neg (by simp [hd])⟩, rfl, hd⟩
    · obtain ⟨o, ho, hid⟩ := List.mem_map.mp hmem
      refine ⟨_, mem_updateWhere.mpr ⟨o, ho, rfl⟩, ?_, ?_⟩
      · split <;> exact hid
      · split
        · simp
        · next hne => simpa [hid] using hne

theorem closed_claim {batch : List String} {oid : String} :
    (CLAIM_OUTBOX batch db).Closed oid ↔ db.Closed oid := by
  constructor
  · rintro ⟨o, ho, rfl, hd⟩
    obtain ⟨q, hq, rfl⟩ := mem_updateWhere.mp ho
    exact ⟨q, hq, by split <;> rfl, by split at hd <;> exact hd⟩
  · rintro ⟨o, ho, rfl, hd⟩
    exact ⟨_, mem_updateWhere.mpr ⟨o, ho, rfl⟩, by split <;> rfl, by split <;> exact hd⟩

theorem claim_ids {batch : List String} : (CLAIM_OUTBOX batch db).outbox.map OutboxRow.id =
    db.outbox.map OutboxRow.id := map_updateWhere fun _ => rfl

/-- The loop of `run_once` is a sweep. -/
theorem dispatch_all_sweep (p : RelayPass) : ∀ (es : List PendingEvent) (s : Db × G),
    dispatch_all store p.replies p.clock es s.1 s.2 = sweep (p.try_event store) es s
  | [], _ => rfl
  | e :: es, s => by
      simp only [dispatch_all, sweep, RelayPass.try_event]
      cases dispatch store (p.replies e) (p.clock e) e s.1 s.2 with
      | mk r s' =>
          cases r with
          | error exc => rfl
          | ok b => simp only [dispatch_all_sweep p es s']

theorem collect_isOk {α β : Type} {f : α → Except Exc β} : ∀ {xs : List α},
    (∀ x ∈ xs, (f x).isOk = true) → collect f xs = .ok (xs.filterMap fun x => (f x).toOption)
  | [], _ => rfl
  | x :: xs, h => by
      have hx := h x List.mem_cons_self
      have ih := collect_isOk fun y hy => h y (List.mem_cons_of_mem _ hy)
      cases hf : f x with
      | error _ => rw [hf] at hx; cases hx
      | ok y => simp [collect, hf, ih, Except.toOption, bind, Except.bind]

theorem collect_error {α β : Type} {f : α → Except Exc β} : ∀ {xs : List α},
    ¬ (∀ x ∈ xs, (f x).isOk = true) → ∃ exc, collect f xs = .error exc
  | [], h => absurd (fun _ hx => absurd hx List.not_mem_nil) h
  | x :: xs, h => by
      cases hf : f x with
      | error exc => exact ⟨exc, by simp [collect, hf, bind, Except.bind]⟩
      | ok y =>
          have hrest : ¬ ∀ x ∈ xs, (f x).isOk = true := fun hall => h fun z hz => by
            rcases List.mem_cons.mp hz with rfl | hz
            · rw [hf]; rfl
            · exact hall z hz
          obtain ⟨exc, hexc⟩ := collect_error hrest
          exact ⟨exc, by simp [collect, hf, hexc, bind, Except.bind]⟩

/-- A batch that can all be read is swept. -/
theorem after_legible
    (h : ∀ o ∈ claimed_rows p.batch (CLAIM_OUTBOX p.batch s.1), (pending_from_row o).isOk = true) :
    p.after store s = (sweep (p.try_event store) (legible_events p.batch s.1)
      (CLAIM_OUTBOX p.batch s.1, s.2)).2 := by
  have hevents : claimed_events p.batch s.1 = .ok (legible_events p.batch s.1) := collect_isOk h
  have hsweep : dispatch_all store p.replies p.clock (legible_events p.batch s.1)
      (CLAIM_OUTBOX p.batch s.1) s.2 = _ := dispatch_all_sweep p _ (CLAIM_OUTBOX p.batch s.1, s.2)
  simp only [RelayPass.after, run_once, hevents, hsweep]

/-- A batch that cannot is left as claimed. -/
theorem after_illegible
    (h : ¬ ∀ o ∈ claimed_rows p.batch (CLAIM_OUTBOX p.batch s.1), (pending_from_row o).isOk = true) :
    p.after store s = (CLAIM_OUTBOX p.batch s.1, s.2) := by
  obtain ⟨exc, hexc⟩ := collect_error h
  have hevents : claimed_events p.batch s.1 = .error exc := hexc
  simp only [RelayPass.after, run_once, hevents]

/-- Reading rows off one by one keeps their keys in order. -/
theorem filterMap_keys {α β κ : Type} {f : α → Option β} {j : α → κ} {k : β → κ}
    (h : ∀ x y, f x = some y → k y = j x) : ∀ xs : List α,
    ((xs.filterMap f).map k).Sublist (xs.map j)
  | [] => List.Sublist.slnil
  | x :: xs => by
      have ih := filterMap_keys h xs
      cases hf : f x with
      | none => rw [List.filterMap_cons_none hf]; exact ih.cons _
      | some y =>
          rw [List.filterMap_cons_some hf, List.map_cons, List.map_cons, h x y hf]
          exact ih.cons_cons _

/-- The events of a claim are told apart by their ids. -/
theorem legible_nodup {cfg : RelayConfig} (hc : IsClaim cfg p.locked p.batch db) :
    ((legible_events p.batch db).map PendingEvent.outbox_id).Nodup := by
  have hrows : ((claimed_rows p.batch (CLAIM_OUTBOX p.batch db)).map OutboxRow.id).Sublist
      (p.batch.map id) := filterMap_keys (fun oid o h => by simpa using List.find?_some h) _
  have hevents := filterMap_keys (f := fun o => (pending_from_row o).toOption) (j := OutboxRow.id)
    (k := PendingEvent.outbox_id) (fun o e h => by
      cases hp : pending_from_row o with
      | error _ => rw [hp] at h; cases h
      | ok e' =>
          rw [hp] at h
          obtain rfl := Option.some.inj h
          exact (pending_from_row_ok hp).1) (claimed_rows p.batch (CLAIM_OUTBOX p.batch db))
  rw [List.map_id] at hrows
  exact (hevents.trans hrows).nodup hc.nodup

/-- A claimed event is in the outbox, and open. -/
theorem legible_open {cfg : RelayConfig} (hk : db.Keyed) (hc : IsClaim cfg p.locked p.batch db)
    (he : e ∈ legible_events p.batch db) :
    ¬ db.Closed e.outbox_id ∧ e.outbox_id ∈ db.outbox.map OutboxRow.id := by
  obtain ⟨o, ho, hpend⟩ := List.mem_filterMap.mp he
  obtain ⟨oid, hoid, hfind⟩ := List.mem_filterMap.mp ho
  have hid : o.id = oid := by simpa using List.find?_some hfind
  have hev : e.outbox_id = oid := by
    cases hp : pending_from_row o with
    | error _ => rw [hp] at hpend; cases hpend
    | ok e' =>
        rw [hp] at hpend
        obtain rfl := Option.some.inj hpend
        exact (pending_from_row_ok hp).1.trans hid
  obtain ⟨-, q, hq, hqid, hpending⟩ := hc.pending oid hoid
  rw [hev]
  refine ⟨?_, hqid ▸ List.mem_map_of_mem hq⟩
  rintro ⟨q', hq', hq'id, hd⟩
  obtain rfl := eq_of_key OutboxRow.id hk hq' hq (hq'id.trans hqid.symm)
  simp only [OutboxRow.pending, Bool.and_eq_true, Option.isNone_iff_eq_none] at hpending
  exact hd hpending.1

/-- What a pass closes: the events it reaches. -/
theorem closed_after {cfg : RelayConfig} (hk : s.1.Keyed)
    (hc : IsClaim cfg p.locked p.batch s.1)
    (h : ∀ o ∈ claimed_rows p.batch (CLAIM_OUTBOX p.batch s.1), (pending_from_row o).isOk = true)
    {x : Lib.Sweep.Turn PendingEvent Exc} (hx : x ∈ p.turns store s) :
    (p.after store s).1.Closed x.item.outbox_id ↔ x.item ∈ reached (p.turns store s) := by
  have hitems : (p.turns store s).map Lib.Sweep.Turn.item = legible_events p.batch s.1 := turns_items
  have hmem : x.item ∈ legible_events p.batch s.1 := hitems ▸ List.mem_map_of_mem hx
  obtain ⟨hopen, hin⟩ := legible_open hk hc hmem
  have hmark := sweep_mark (f := p.try_event store) (g := PendingEvent.outbox_id)
    (M := fun s k => s.1.Closed k) (H := fun s k => k ∈ s.1.outbox.map OutboxRow.id)
    (fun e s k => by
      rcases p.try_event_db store e s with ⟨-, hdb⟩ | ⟨-, hdb⟩
      · rw [hdb, complete_ids]
      · rw [hdb])
    (fun e s k => by
      rcases p.try_event_db store e s with ⟨hr, hdb⟩ | ⟨hr, hdb⟩
      · rw [hdb, closed_complete]
        simp [hr]
      · rw [hdb]
        simp [hr])
    x.item.outbox_id (legible_events p.batch s.1) (CLAIM_OUTBOX p.batch s.1, s.2)
  rw [after_legible h, hmark]
  simp only [closed_claim, claim_ids]
  constructor
  · rintro (hclosed | ⟨hmap, -⟩)
    · exact absurd hclosed hopen
    · obtain ⟨e, he, heid⟩ := List.mem_map.mp hmap
      have hein : e ∈ legible_events p.batch s.1 := hitems ▸ mem_reached he
      exact eq_of_key PendingEvent.outbox_id (legible_nodup hc) hein hmem heid ▸ he
  · exact fun h => Or.inr ⟨List.mem_map_of_mem h, hin⟩

/-- A pass is fair exactly when nothing that succeeds comes after what raises. -/
theorem fair_iff {cfg : RelayConfig} (hk : s.1.Keyed) (hc : IsClaim cfg p.locked p.batch s.1) :
    p.Fair store s ↔ p.Ordered store s := by
  have hitems : (p.turns store s).map Lib.Sweep.Turn.item = legible_events p.batch s.1 := turns_items
  have hnd : ((p.turns store s).map Lib.Sweep.Turn.item).Nodup := hitems ▸ (legible_nodup hc).of_map
  unfold RelayPass.Fair RelayPass.Ordered
  by_cases h : ∀ o ∈ claimed_rows p.batch (CLAIM_OUTBOX p.batch s.1), (pending_from_row o).isOk = true
  · rw [← reached_all hnd]
    constructor
    · exact fun hf => ⟨Or.inl h, fun x hx hfin => (closed_after hk hc h hx).mp (hf x hx hfin)⟩
    · exact fun hf x hx hfin => (closed_after hk hc h hx).mpr (hf.2 x hx hfin)
  · rw [after_illegible h]
    have hnone : (∀ x ∈ p.turns store s, x.finished = true →
        (CLAIM_OUTBOX p.batch s.1).Closed x.item.outbox_id) ↔
        ∀ x ∈ p.turns store s, x.finished = false := by
      refine forall₂_congr fun x hx => ?_
      have hopen := (legible_open hk hc (hitems ▸ List.mem_map_of_mem hx)).1
      simp [closed_claim, hopen]
    simp only [hnone, h, false_or]
    exact ⟨fun hn => ⟨hn, List.pairwise_of_forall_mem_list fun _ _ y hy _ => hn y hy⟩, And.left⟩

/-! ### Any number of passes -/

/-- Whatever else commits between two passes. -/
structure Meanwhile (G : Type) where
  tables : Db → Db
  graph : G → G
  evolves : ∀ db : Db, db.Evolves (tables db)
  keyed : ∀ db : Db, db.Keyed → (tables db).Keyed

inductive RelayOp (G : Type) where
  | pass (p : RelayPass)
  | meanwhile (m : Meanwhile G)

/-- Passes of one relay, with anything in between; `none` when the database cannot give that batch. -/
def relay_step (cfg : RelayConfig) (store : GraphStore G) (s : Db × G) : RelayOp G → Option (Db × G)
  | .pass p => if IsClaim cfg p.locked p.batch s.1 then some (p.after store s) else none
  | .meanwhile m => some (m.tables s.1, m.graph s.2)

/-- If this is a pass, `P` holds of it. -/
def RelayOp.pass_is (cfg : RelayConfig) (P : RelayPass → Db × G → Prop) (s : Db × G) :
    RelayOp G → Prop
  | .pass p => IsClaim cfg p.locked p.batch s.1 → P p s
  | .meanwhile _ => True

instance (cfg : RelayConfig) (P : RelayPass → Db × G → Prop) [∀ p s, Decidable (P p s)] :
    ∀ (s : Db × G) (op : RelayOp G), Decidable (op.pass_is cfg P s)
  | s, .pass p => inferInstanceAs (Decidable (IsClaim cfg p.locked p.batch s.1 → P p s))
  | _, .meanwhile _ => isTrue trivial

/-- No event that was healthy in a pass that claimed it ever has its attempts used up and is open. -/
def NoneStarved (cfg : RelayConfig) (store : GraphStore G) (s : Db × G) (ops : List (RelayOp G)) :
    Prop :=
  ∀ pre p post m m', ops = pre ++ .pass p :: post → run (relay_step cfg store) s pre = some m →
    relay_step cfg store m (.pass p) = some m' → ∀ x ∈ p.turns store m, x.finished = true →
    Always (relay_step cfg store) (fun u => ¬ u.1.Starved cfg x.item.outbox_id) m' post

variable {cfg : RelayConfig}

theorem try_event_evolves (p : RelayPass) (store : GraphStore G) (e : PendingEvent) (s : Db × G) :
    s.1.Evolves (p.try_event store e s).2.1 := by
  rcases p.try_event_db store e s with ⟨-, h⟩ | ⟨-, h⟩
  · rw [h]
    exact complete_evolves
  · rw [h]
    exact .refl s.1

theorem after_evolves : s.1.Evolves (p.after store s).1 := by
  by_cases h : ∀ o ∈ claimed_rows p.batch (CLAIM_OUTBOX p.batch s.1), (pending_from_row o).isOk = true
  · rw [after_legible h]
    have hsweep := rel_sweep (f := p.try_event store) (R := fun s s' => s.1.Evolves s'.1)
      (fun s => .refl s.1) (fun _ _ _ => .trans) (try_event_evolves p store)
      (legible_events p.batch s.1) (CLAIM_OUTBOX p.batch s.1, s.2)
    exact claim_evolves.trans hsweep
  · rw [after_illegible h]
    exact claim_evolves

theorem after_ids : (p.after store s).1.outbox.map OutboxRow.id = s.1.outbox.map OutboxRow.id := by
  by_cases h : ∀ o ∈ claimed_rows p.batch (CLAIM_OUTBOX p.batch s.1), (pending_from_row o).isOk = true
  · rw [after_legible h]
    refine (rel_sweep (f := p.try_event store)
      (R := fun s s' => s'.1.outbox.map OutboxRow.id = s.1.outbox.map OutboxRow.id)
      (fun _ => rfl) (fun _ _ _ h k => k.trans h) (fun e s => ?_) _ _).trans claim_ids
    rcases p.try_event_db store e s with ⟨-, hdb⟩ | ⟨-, hdb⟩
    · rw [hdb, complete_ids]
    · rw [hdb]
  · rw [after_illegible h, claim_ids]

theorem relay_step_keyed {s' : Db × G} {op : RelayOp G} (h : relay_step cfg store s op = some s')
    (hk : s.1.Keyed) : s'.1.Keyed ∧ s.1.Evolves s'.1 := by
  cases op with
  | pass p =>
      simp only [relay_step] at h
      split at h
      · obtain rfl := Option.some.inj h
        refine ⟨?_, after_evolves⟩
        rw [Db.Keyed, after_ids]
        exact hk
      · cases h
  | meanwhile m =>
      obtain rfl := Option.some.inj h
      exact ⟨m.keyed _ hk, m.evolves _⟩

theorem Db.Closed.evolves {db' : Db} {oid : String} (h : db.Closed oid) (he : db.Evolves db') :
    db'.Closed oid := by
  obtain ⟨o, ho, hid, hd⟩ := h
  obtain ⟨o', ho', hstep⟩ := he.events o ho
  exact ⟨o', ho', hstep.id.trans hid, (hstep.dispatched hd).symm ▸ hd⟩

theorem Db.Closed.not_starved {oid : String} (h : db.Closed oid) (hk : db.Keyed) :
    ¬ db.Starved cfg oid := by
  rintro ⟨o, ho, hid, hopen, -⟩
  obtain ⟨q, hq, hqid, hd⟩ := h
  obtain rfl := eq_of_key OutboxRow.id hk hq ho (hqid.trans hid.symm)
  exact hd hopen

/-- Once closed, an event is never starved. -/
theorem always_not_starved {oid : String} : ∀ {ops : List (RelayOp G)} {s : Db × G}, s.1.Keyed →
    s.1.Closed oid → Always (relay_step cfg store) (fun u => ¬ u.1.Starved cfg oid) s ops
  | [], _, hk, hc => hc.not_starved hk
  | _ :: _, _, hk, hc => ⟨hc.not_starved hk, fun _ h =>
      have hstep := relay_step_keyed h hk
      always_not_starved hstep.1 (hc.evolves hstep.2)⟩

/-- Passes that are all fair starve nothing. -/
theorem noneStarved_of_fair {ops : List (RelayOp G)} (hk : s.1.Keyed)
    (h : Along (relay_step cfg store)
      (fun s op => op.pass_is cfg (fun p s => p.Fair store s) s) s ops) :
    NoneStarved cfg store s ops := by
  rintro pre p post m m' rfl hpre hpass x hx hfin
  have hkm : m.1.Keyed := inv_run (I := fun s => s.1.Keyed)
    (fun _ _ _ h hk => (relay_step_keyed h hk).1) hpre hk
  have hkm' : m'.1.Keyed := (relay_step_keyed hpass hkm).1
  have hfair := (h.append.2 m hpre).1
  simp only [relay_step] at hpass
  split at hpass
  · next hc =>
      obtain rfl := Option.some.inj hpass
      exact always_not_starved hkm' (hfair hc x hx hfin)
  · cases hpass

/-- CORRECT: over any passes, with anything in between, every pass closes its healthy events and none
    of them is ever starved if and only if in no pass a healthy event comes after one that raises. -/
theorem fair_iff_ordered (cfg : RelayConfig) (store : GraphStore G) {s : Db × G} (hk : s.1.Keyed)
    (ops : List (RelayOp G)) :
    (Along (relay_step cfg store) (fun s op => op.pass_is cfg (fun p s => p.Fair store s) s) s ops ∧
      NoneStarved cfg store s ops) ↔
    Along (relay_step cfg store) (fun s op => op.pass_is cfg (fun p s => p.Ordered store s) s)
      s ops := by
  have hpass : ∀ (t : Db × G) (op : RelayOp G), t.1.Keyed →
      (op.pass_is cfg (fun p s => p.Fair store s) t ↔
        op.pass_is cfg (fun p s => p.Ordered store s) t) := by
    intro t op ht
    cases op with
    | pass p => exact forall_congr' fun hc => fair_iff ht hc
    | meanwhile m => exact Iff.rfl
  rw [← along_congr (fun _ _ _ h ht => (relay_step_keyed h ht).1) hpass hk]
  exact ⟨And.left, fun h => ⟨h, noneStarved_of_fair hk h⟩⟩

section Clinical

open GuardMem.Clinical

/-- A patient of the clinic and one of the ward each have a language stored, not yet dispatched. -/
def two_tenants : List Label :=
  [proposal "t" [language "t" "c_1" "French" 10],
    .deliver "ward" "patient:1" "u" [{ language "u" "c_1" "German" 10 with tenant_id := "ward" }],
    scored 0 0, scored 1 0, applied 0 20, applied 1 20]

/-- A pass over both events, returned in this order; the graph's driver raises on the clinic's. -/
def spoiled (batch : List String) : RelayOp Graph :=
  .pass ⟨[], batch, fun e =>
    if e.tenant_id = "clinic" then .raises (.ValidationRejected "driver") false else .answers,
    fun _ => 30⟩

def clinic_event : String := outbox_id uuid (row_id "t" "c_1")

def ward_event : String := outbox_id uuid (row_id "u" "c_1")

/-- Behind the clinic's event in five passes, the ward's is healthy in each and starved at the end. -/
theorem ward_starved : ∃ w ∈ run (step Clinical.env) Clinical.env.init two_tenants,
    ¬ Along (relay_step Clinical.env.relay Clinical.env.store)
        (fun s op => op.pass_is Clinical.env.relay (fun p s => p.Fair Clinical.env.store s) s)
        (w.db, w.graph) (List.replicate 5 (spoiled [clinic_event, ward_event])) ∧
      ∃ s ∈ run (relay_step Clinical.env.relay Clinical.env.store) (w.db, w.graph)
          (List.replicate 5 (spoiled [clinic_event, ward_event])),
        s.1.Starved Clinical.env.relay ward_event := by
  decide +kernel

/-- Ahead of it, the ward's event is closed, whatever becomes of the clinic's. -/
theorem ward_first : ∃ w, run (step Clinical.env) Clinical.env.init two_tenants = some w ∧
    NoneStarved Clinical.env.relay Clinical.env.store (w.db, w.graph)
      [spoiled [ward_event, clinic_event], spoiled [clinic_event], spoiled [clinic_event]] := by
  have hrun : ∃ w ∈ run (step Clinical.env) Clinical.env.init two_tenants,
      (w.db.outbox.map OutboxRow.id).Nodup ∧
      Along (relay_step Clinical.env.relay Clinical.env.store)
        (fun s op => op.pass_is Clinical.env.relay (fun p s => p.Ordered Clinical.env.store s) s)
        (w.db, w.graph)
        [spoiled [ward_event, clinic_event], spoiled [clinic_event], spoiled [clinic_event]] := by
    decide +kernel
  obtain ⟨w, hw, hk, hordered⟩ := hrun
  exact ⟨w, hw, ((fair_iff_ordered _ _ (s := (w.db, w.graph)) hk _).mpr hordered).2⟩

end Clinical

end GuardMem
