import GuardMem.Observability.AuditStore

/-! When `verify_chain` gives a report on whatever the table holds.

    The linkage is compared before anything is hashed, so `digest_for` sees no predecessor but `GENESIS`
    and digests the walk has matched (`Hashed.isDigest`), and nothing a digest column holds can make it
    raise. What can is a payload: `json.loads` reads a number with a fraction that is beyond the doubles
    as an infinity, which `canonical_json` refuses. CORRECT exactly where no payload the walk hashes has
    one (`reports_iff`). -/

namespace GuardMem.Audit

open Lib Lib.Json Lib.HashChain

/-- `json.loads` has read the payload from a JSONB column: it raises at an integer of more digits than
    Python converts. -/
def FromJsonb (p : Payload) : Prop :=
  (∃ j, loads_jsonb j = p) ∧ ∀ i, .int i ∈ p.value.scalars → (Scalar.int i).refused = none

/-- A number of the payload was read as an infinity. -/
def Overflows (p : Payload) : Prop := ∃ neg, .float (.inf neg) ∈ p.value.scalars

/-- From a digest on, the walk hashes the link: what comes before it is intact, and it names the digest
    before it. -/
def HashedAfter (prev : String) (events : List AuditEvent) (event : AuditEvent) : Prop :=
  ∃ before after, events = before ++ event :: after ∧
    Intact chain_hash prev (before.map AuditEvent.link) ∧
    event.prev_digest = head prev (before.map AuditEvent.link)

/-- `verify_chain` hashes the link. -/
def Hashed (events : List AuditEvent) (event : AuditEvent) : Prop := HashedAfter GENESIS events event

/-! ### Payloads -/

/-- What `json.loads` gives is a JSON scalar, or an infinity. -/
theorem loads_scalar_cases (s : JsonbScalar) : (loads_scalar s).isOther = false ∧
    ((loads_scalar s).refused = none ∨ (∃ i, loads_scalar s = .int i) ∨
      ∃ neg, loads_scalar s = .float (.inf neg)) := by
  cases s with
  | null => exact ⟨rfl, Or.inl rfl⟩
  | boolean b => exact ⟨rfl, Or.inl rfl⟩
  | string t => exact ⟨rfl, Or.inl rfl⟩
  | numeric n =>
      simp only [loads_scalar]
      split_ifs with hplaces
      · exact ⟨rfl, Or.inr (Or.inl ⟨_, rfl⟩)⟩
      · exact ⟨rfl, Or.inr (Or.inl ⟨_, rfl⟩)⟩
      · split
        · exact ⟨rfl, Or.inl rfl⟩
        · exact ⟨rfl, Or.inr (Or.inr ⟨_, rfl⟩)⟩

/-- CORRECT: of what the column gives back, exactly the payloads with an infinity have no canonical
    text. -/
theorem FromJsonb.legible_iff {p : Payload} (h : FromJsonb p) :
    (∃ text, canonical_json p = .ok text) ↔ ¬ Overflows p := by
  obtain ⟨⟨j, rfl⟩, hints⟩ := h
  simp only [canonical_json_ok, exists_and_left, exists_eq, and_true]
  constructor
  · rintro hsafe ⟨neg, hmem⟩
    have hrefused := (hsafe _ hmem).2
    cases hrefused
  · intro hfinite s hs
    have hvalue : (loads_jsonb j).value = (Tree.obj j.entries).map loads_scalar := by
      rw [map_obj]
      rfl
    have hmem := hs
    rw [hvalue, scalars_map] at hmem
    obtain ⟨c, -, rfl⟩ := List.mem_map.mp hmem
    obtain ⟨hother, hfine | ⟨i, hi⟩ | ⟨neg, hneg⟩⟩ := loads_scalar_cases c
    · exact ⟨hother, hfine⟩
    · rw [hi] at hs ⊢
      exact ⟨rfl, hints i hs⟩
    · rw [hneg] at hs
      exact absurd ⟨neg, hs⟩ hfinite

/-! ### The walk -/

variable {events : List AuditEvent} {event : AuditEvent} {prev : String} {index : ℕ} {exc : Exc}

theorem HashedAfter.mem (h : HashedAfter prev events event) : event ∈ events := by
  obtain ⟨before, after, rfl, -, -⟩ := h
  exact List.mem_append_right _ List.mem_cons_self

/-- The walk hashes its first link where that names the digest, and once it has matched what the walk of
    the rest hashes. -/
theorem hashedAfter_cons {e : AuditEvent} : HashedAfter prev (e :: events) event ↔
    (event = e ∧ e.prev_digest = prev) ∨ (e.prev_digest = prev ∧
      digest_for e.payload e.prev_digest = .ok e.digest ∧ HashedAfter e.digest events event) := by
  constructor
  · rintro ⟨before, after, heq, hintact, hprev⟩
    cases before with
    | nil =>
        obtain ⟨rfl, -⟩ := List.cons.inj heq
        exact Or.inl ⟨rfl, hprev⟩
    | cons b before =>
        obtain ⟨rfl, rfl⟩ := List.cons.inj heq
        rw [List.map_cons, Intact, sound_iff] at hintact
        exact Or.inr ⟨hintact.1.1, hintact.1.2, before, after, rfl, hintact.2, hprev⟩
  · rintro (⟨rfl, hprev⟩ | ⟨hprev, hsound, before, after, rfl, hintact, hevent⟩)
    · exact ⟨[], events, rfl, trivial, hprev⟩
    · refine ⟨e :: before, after, rfl, ?_, hevent⟩
      rw [List.map_cons, Intact, sound_iff]
      exact ⟨⟨hprev, hsound⟩, hintact⟩

/-- After a digest, what `digest_for` raises is what `canonical_json` raises. -/
theorem digest_for_error {p : Payload} (hprev : IsDigest prev) :
    digest_for p prev = .error exc ↔ canonical_json p = .error exc := by
  obtain ⟨bs, hlen, rfl⟩ := hprev
  rw [digest_for, digest_bytes_hexdigest hlen]
  cases canonical_json p with
  | error exc' => exact Iff.rfl
  | ok text => exact iff_of_false (by rintro ⟨⟩) (by rintro ⟨⟩)

/-- CORRECT: from a digest on, the walk raises exactly what `canonical_json` raises at a link it
    hashes. -/
theorem verify_from_raises (hprev : IsDigest prev) : verify_from prev index events = .error exc ↔
    ∃ e, HashedAfter prev events e ∧ canonical_json e.payload = .error exc := by
  induction events generalizing prev index with
  | nil =>
      refine iff_of_false (fun h => by cases h) ?_
      rintro ⟨e, he, -⟩
      exact List.not_mem_nil he.mem
  | cons e es ih =>
      simp only [hashedAfter_cons]
      rw [verify_from]
      split_ifs with hlink
      · refine iff_of_false (fun h => by cases h) ?_
        rintro ⟨x, ⟨rfl, hx⟩ | ⟨hx, -⟩, -⟩
        · exact hlink hx
        · exact hlink hx
      · obtain rfl := not_not.mp hlink
        cases hd : digest_for e.payload e.prev_digest with
        | error exc' =>
            have hjson := (digest_for_error hprev).mp hd
            dsimp only
            constructor
            · intro h
              exact ⟨e, Or.inl ⟨rfl, rfl⟩, Except.error.inj h ▸ hjson⟩
            · rintro ⟨x, ⟨rfl, -⟩ | ⟨-, hok, -⟩, hx⟩
              · exact congrArg _ (Except.error.inj (hjson.symm.trans hx))
              · cases hok
        | ok d =>
            have hfine : canonical_json e.payload ≠ .error exc := fun h => by
              rw [(digest_for_error hprev).mpr h] at hd
              cases hd
            dsimp only
            split_ifs with hdigest
            · refine iff_of_false (fun h => by cases h) ?_
              rintro ⟨x, ⟨rfl, -⟩ | ⟨-, hok, -⟩, hx⟩
              · exact hfine hx
              · exact hdigest (Except.ok.inj hok).symm
            · obtain rfl := not_not.mp hdigest
              rw [ih (digest_for_isDigest hd)]
              constructor
              · rintro ⟨x, hx, hjson⟩
                exact ⟨x, Or.inr ⟨rfl, rfl, hx⟩, hjson⟩
              · rintro ⟨x, ⟨rfl, -⟩ | ⟨-, -, hx⟩, hjson⟩
                · exact absurd hjson hfine
                · exact ⟨x, hx, hjson⟩

/-- CORRECT: what the walk hashes after is `GENESIS` or a digest it has matched. -/
theorem Hashed.isDigest (h : Hashed events event) : IsDigest event.prev_digest := by
  obtain ⟨before, after, -, hintact, hprev⟩ := h
  rw [hprev, head_links, last_digest]
  cases hlast : before.getLast? with
  | none => exact isDigest_genesis
  | some e =>
      have hsound := chained_prev isDigest_genesis hintact e (List.mem_of_getLast? hlast)
      exact digest_for_isDigest hsound.2

/-- CORRECT: on what a database can hold, with any texts as digests, verification gives a report exactly
    where no payload it hashes has a number beyond the doubles; and it hashes after nothing but `GENESIS`
    and digests it has matched. -/
theorem reports_iff (events : List AuditEvent) (hjson : ∀ e ∈ events, FromJsonb e.payload) :
    ((∃ report, verify_chain events = .ok report) ↔ ∀ e, Hashed events e → ¬ Overflows e.payload) ∧
      ∀ e, Hashed events e → IsDigest e.prev_digest := by
  refine ⟨?_, fun e => Hashed.isDigest⟩
  constructor
  · rintro ⟨report, hreport⟩ e he
    rw [← (hjson e he.mem).legible_iff]
    cases htext : canonical_json e.payload with
    | ok text => exact ⟨text, rfl⟩
    | error exc =>
        rw [verify_chain, (verify_from_raises isDigest_genesis).mpr ⟨e, he, htext⟩] at hreport
        cases hreport
  · intro hfinite
    cases hwalk : verify_chain events with
    | ok report => exact ⟨report, rfl⟩
    | error exc =>
        obtain ⟨e, he, htext⟩ := (verify_from_raises isDigest_genesis).mp hwalk
        obtain ⟨text, hok⟩ := (hjson e he.mem).legible_iff.mpr (hfinite e he)
        rw [htext] at hok
        cases hok

/-- A first link whose digest columns hold no digests, with the payload as the column gave it. -/
def garbled (prev_digest : String) (payload : Payload) : AuditEvent where
  seq := some 1
  tenant_id := "clinic"
  trace_id := "t"
  kind := .DECISION
  payload := payload
  prev_digest := prev_digest
  digest := "not a digest"
  created_at := 0

/-- `{}` -/
def no_entries : Payload := ⟨[], by simp⟩

theorem fromJsonb_no_entries : FromJsonb no_entries :=
  ⟨⟨⟨[], by simp⟩, rfl⟩, by simp [no_entries, Payload.value]⟩

/-- Linked to nothing, an event is reported and not raised at. -/
theorem garbled_reported : ∃ report, verify_chain [garbled "" no_entries] = .ok report := by
  refine (reports_iff [garbled "" no_entries] ?_).1.mpr ?_
  · intro e he
    obtain rfl := List.mem_singleton.mp he
    exact fromJsonb_no_entries
  · rintro e he ⟨neg, hneg⟩
    obtain rfl := List.mem_singleton.mp he.mem
    simp [garbled, no_entries, Payload.value] at hneg

/-- `1000...000.5`, with 310 digits before the point. -/
def vast : Numeral := ⟨false, (10 ^ 155) ^ 2 + 5, 1, none⟩

/-- `json.loads` reads it as an infinity. -/
theorem loads_vast : loads_scalar (.numeric vast) = .float (.inf false) := by
  have hnearest : Binary64.nearest vast.neg vast.magnitude = none := by decide +kernel
  rw [loads_scalar, if_neg (show vast.places ≠ 0 from Nat.one_ne_zero), hnearest]
  rfl

/-- `{"x": 1000...000.5}` -/
def vast_column : Jsonb := ⟨[("x", .leaf (.numeric vast))], by simp⟩

/-- A first link that names `GENESIS` and holds that number is raised at. -/
theorem not_total : ¬ ∀ events : List AuditEvent, (∀ e ∈ events, FromJsonb e.payload) →
    ∃ report, verify_chain events = .ok report := by
  intro h
  have hscalars : (loads_jsonb vast_column).value.scalars = [.float (.inf false)] := by
    simp [loads_jsonb, vast_column, Payload.value, loads_vast]
  have hjson : FromJsonb (loads_jsonb vast_column) := ⟨⟨vast_column, rfl⟩, by simp [hscalars]⟩
  cases htext : canonical_json (loads_jsonb vast_column) with
  | ok text => exact hjson.legible_iff.mp ⟨text, htext⟩ ⟨false, by simp [hscalars]⟩
  | error exc =>
      have herror : verify_chain [garbled GENESIS (loads_jsonb vast_column)] = .error exc :=
        (verify_from_raises isDigest_genesis).mpr ⟨_, ⟨[], [], rfl, trivial, rfl⟩, htext⟩
      obtain ⟨report, hreport⟩ :=
        h [garbled GENESIS (loads_jsonb vast_column)] (by simpa [garbled] using hjson)
      rw [herror] at hreport
      cases hreport

end GuardMem.Audit
