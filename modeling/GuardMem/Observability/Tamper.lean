import GuardMem.Observability.Audit

/-! What a hash chain shows of a tampered log.

    The digest is taken over the payload and the predecessor only. So the last digest binds every
    payload and every digest of the chain (`digest_binds`), and none of `kind`, `trace_id`, `tenant_id`
    and `created_at` (`kind_unbound`). A rejected chain is reported at the first link that fails either
    test, which need not be the first whose own digest is wrong (`break_exact`, `linkage_first`). -/

namespace GuardMem.Audit

open Lib Lib.HashChain

/-- The two links hash the same JSON after the same predecessor, to the same digest. -/
def AuditEvent.Agrees (e e' : AuditEvent) : Prop :=
  e.payload.Same e'.payload ∧ e.prev_digest = e'.prev_digest ∧ e.digest = e'.digest

/-- The digest before a position, `GENESIS` before the first. -/
def predecessor (events : List AuditEvent) : ℕ → String
  | 0 => GENESIS
  | i + 1 => (events[i]?.map AuditEvent.digest).getD GENESIS

/-- The link fails one of `verify_chain`'s two tests. -/
def Fails (events : List AuditEvent) (i : ℕ) : Prop :=
  ∃ e, events[i]? = some e ∧
    (e.prev_digest ≠ predecessor events i ∨ digest_for e.payload e.prev_digest ≠ .ok e.digest)

/-! ### Agreement is equality of links -/

theorem agrees_iff {e e' : AuditEvent} {text : String} (h : canonical_json e.payload = .ok text) :
    e.Agrees e' ↔ e.link = e'.link := by
  simp only [AuditEvent.Agrees, AuditEvent.link, Link.mk.injEq, ← canonical_json_same h, h]
  refine and_congr_left fun _ => ?_
  cases canonical_json e'.payload with
  | error exc => simp [Except.toOption]
  | ok t => simp [Except.toOption, eq_comm]

theorem chained_legible {events : List AuditEvent} (h : Chained events) {e : AuditEvent}
    (he : e ∈ events) : ∃ text, canonical_json e.payload = .ok text :=
  digest_for_legible (chained_prev isDigest_genesis h e he).2

theorem forall_agrees_iff {es es' : List AuditEvent} (h : Chained es) :
    List.Forall₂ AuditEvent.Agrees es es' ↔ es.map AuditEvent.link = es'.map AuditEvent.link := by
  have hlegible : ∀ e ∈ es, ∃ text, canonical_json e.payload = .ok text := fun _ => chained_legible h
  clear h
  induction es generalizing es' with
  | nil => cases es' <;> simp
  | cons e es ih =>
      obtain ⟨text, htext⟩ := hlegible e List.mem_cons_self
      cases es' with
      | nil => simp
      | cons e' es' =>
          have hrest : List.Forall₂ AuditEvent.Agrees es es' ↔
              es.map AuditEvent.link = es'.map AuditEvent.link :=
            ih fun x hx => hlegible x (List.mem_cons_of_mem _ hx)
          rw [List.forall₂_cons, agrees_iff htext, hrest]
          simp

theorem head_take_links {events : List AuditEvent} {i : ℕ} (hi : i ≤ events.length) :
    head GENESIS ((events.map AuditEvent.link).take i) = predecessor events i := by
  cases i with
  | zero => rfl
  | succ i =>
      rw [List.take_succ_eq_append_getElem (by rw [List.length_map]; omega), head_concat]
      simp [predecessor, AuditEvent.link, List.getElem?_eq_getElem (show i < events.length from hi)]

/-! ### What the digests bind -/

/-- The first link two chains do not agree on, and every link from it on, has another digest. -/
theorem rewritten_differ {es es' : List AuditEvent} (h : Chained es) (h' : Chained es')
    (hfree : CollisionFree es es') {i j : ℕ} (hij : i ≤ j) {a a' e e' : AuditEvent}
    (ha : es[i]? = some a) (ha' : es'[i]? = some a') (hdiff : ¬ a.Agrees a')
    (he : es[j]? = some e) (he' : es'[j]? = some e') : e.digest ≠ e'.digest := by
  obtain ⟨text, htext⟩ := chained_legible h (List.mem_of_getElem? ha)
  refine digests_differ h h' (chained_tells h h' hfree) hij ?_ (l := e.link) (m := e'.link) ?_ ?_
  · rw [List.getElem?_map, List.getElem?_map, ha, ha']
    exact fun heq => hdiff ((agrees_iff htext).mpr (Option.some.inj heq))
  · rw [List.getElem?_map, he]
    rfl
  · rw [List.getElem?_map, he']
    rfl

/-- CORRECT: next to an accepted chain, the chains of its length that are accepted with its last digest
    are those that agree with it link by link on payload, predecessor and digest, whatever their other
    fields; and a rewrite that is accepted has changed every digest from its first change to the head. -/
theorem digest_binds {es es' : List AuditEvent} (h : Verified es) (hlen : es.length = es'.length)
    (hfree : CollisionFree es es') :
    (Verified es' ∧ last_digest es = last_digest es' ↔ List.Forall₂ AuditEvent.Agrees es es') ∧
    (Verified es' → ∀ (i : ℕ) (a a' : AuditEvent), es[i]? = some a → es'[i]? = some a' →
      ¬ a.Agrees a' → ∀ (j : ℕ) (e e' : AuditEvent), i ≤ j → es[j]? = some e → es'[j]? = some e' →
        e.digest ≠ e'.digest) := by
  rw [verified_iff] at h ⊢
  refine ⟨?_, fun h' i a a' ha ha' hdiff j e e' hij he he' =>
    rewritten_differ h h' hfree hij ha ha' hdiff he he'⟩
  rw [forall_agrees_iff h]
  constructor
  · rintro ⟨h', hlast⟩
    refine eq_of_head h h' (by simpa using hlen) (chained_tells h h' hfree) ?_
    rw [head_links, head_links, hlast]
  · intro hlinks
    refine ⟨by rwa [Chained, ← hlinks], ?_⟩
    have hdigests : es.map AuditEvent.digest = es'.map AuditEvent.digest := by
      have hmap := congrArg (List.map Link.digest) hlinks
      rwa [List.map_map, List.map_map] at hmap
    rw [last_digest, last_digest, ← List.getLast?_map, ← List.getLast?_map, hdigests]

/-! ### A chain whose kinds were exchanged -/

/-- The payload `{}`. -/
def empty_payload : Payload := ⟨[], by simp [Json.Tree.Distinct, Json.DistinctObj]⟩

theorem canonical_json_empty : canonical_json empty_payload = .ok "{}" := rfl

/-- The digest of `{}` after `prev`. -/
def empty_digest (prev : String) : String :=
  hexdigest (Sha256.sha256 (encode "{}" ++ (Sha256.fromhex prev.toList).getD []))

/-- A link over `{}`. -/
def empty_link (kind : AuditKind) (prev digest : String) : AuditEvent :=
  { tenant_id := "t", trace_id := "r", kind, payload := empty_payload, prev_digest := prev, digest
    created_at := 0 }

theorem digest_for_empty {prev : String} (h : IsDigest prev) :
    digest_for empty_payload prev = .ok (empty_digest prev) := by
  obtain ⟨bs, hlen, rfl⟩ := h
  have hbytes : Sha256.fromhex (hexdigest bs).toList = some bs := by
    rw [hexdigest, String.toList_ofList, Sha256.fromhex_hex]
  rw [digest_for, canonical_json_empty, digest_bytes_hexdigest hlen, empty_digest, hbytes]
  rfl

/-- One accepted link over `{}`. -/
def lone_chain (kind : AuditKind) : List AuditEvent :=
  [empty_link kind GENESIS (empty_digest GENESIS)]

theorem verified_lone (kind : AuditKind) : Verified (lone_chain kind) := by
  rw [verified_iff, Chained, lone_chain, List.map_singleton, Intact]
  exact ⟨⟨rfl, sound_iff.mpr (digest_for_empty isDigest_genesis)⟩, trivial⟩

theorem lone_free (kind kind' : AuditKind) : CollisionFree (lone_chain kind) (lone_chain kind') := by
  intro e he e' he' m hm m' hm' _
  obtain rfl := List.mem_singleton.mp he
  obtain rfl := List.mem_singleton.mp he'
  exact Option.some.inj (hm.symm.trans hm')

theorem digest_binds_lone :
    Verified (lone_chain .DECISION) ∧
    (Verified (lone_chain .WRITE) ∧ last_digest (lone_chain .DECISION) = last_digest (lone_chain .WRITE) ↔
      List.Forall₂ AuditEvent.Agrees (lone_chain .DECISION) (lone_chain .WRITE)) :=
  ⟨verified_lone _, (digest_binds (verified_lone .DECISION) (by rfl) (lone_free .DECISION .WRITE)).1⟩

/-- Two accepted chains of one length with one last digest may differ in `kind`. -/
theorem kind_unbound : ¬ ∀ es es' : List AuditEvent, Verified es → Verified es' →
    es.length = es'.length → CollisionFree es es' → last_digest es = last_digest es' →
    List.Forall₂ (fun e e' => e.kind = e'.kind ∧ e.trace_id = e'.trace_id ∧
      e.tenant_id = e'.tenant_id ∧ e.created_at = e'.created_at ∧ e.payload.Same e'.payload) es es' := by
  intro h
  have hkind := h (lone_chain .DECISION) (lone_chain .WRITE) (verified_lone _) (verified_lone _) rfl
    (lone_free _ _) rfl
  rw [lone_chain, lone_chain, List.forall₂_cons] at hkind
  exact absurd hkind.1.1 (by decide)

/-! ### Where a tampered chain breaks -/

/-- A stored event with its payload, `prev_digest` and `digest` replaced by others, or kept. -/
structure Edited (e e' : AuditEvent) : Prop where
  rest : e' = { e with payload := e'.payload, prev_digest := e'.prev_digest, digest := e'.digest }
  legible : ∃ text, canonical_json e'.payload = .ok text

theorem edited_legible {es es' : List AuditEvent} (h : List.Forall₂ Edited es es') :
    ∀ e ∈ es', ∃ text, canonical_json e.payload = .ok text := by
  induction h with
  | nil => simp
  | cons hedit _ ih => exact List.forall_mem_cons.mpr ⟨hedit.legible, ih⟩

theorem fails_iff {events : List AuditEvent} {i : ℕ} {e : AuditEvent} (he : events[i]? = some e) :
    Fails events i ↔
      ¬ (e.link.prev = head GENESIS ((events.map AuditEvent.link).take i) ∧ e.link.Sound chain_hash) := by
  have hi : i ≤ events.length := Nat.le_of_lt (List.getElem?_eq_some_iff.mp he).1
  rw [head_take_links hi, sound_iff, not_and_or]
  constructor
  · rintro ⟨a, ha, hfail⟩
    obtain rfl : e = a := Option.some.inj (he.symm.trans ha)
    exact hfail
  · exact fun hfail => ⟨e, he, hfail⟩

/-- CORRECT: the first break is the first link to fail. -/
theorem firstBreak_links {events : List AuditEvent} {i : ℕ}
    (h : firstBreak chain_hash GENESIS (events.map AuditEvent.link) = some i) :
    Fails events i ∧ ∀ j < i, ¬ Fails events j := by
  obtain ⟨l, hl, hbefore, hbad⟩ := firstBreak_eq_some.mp h
  rw [List.getElem?_map, Option.map_eq_some_iff] at hl
  obtain ⟨e, he, rfl⟩ := hl
  refine ⟨(fails_iff he).mpr hbad, fun j hj => ?_⟩
  rintro ⟨a, ha, hfail⟩
  refine (fails_iff ha).mp ⟨a, ha, hfail⟩ ?_
  have hget : ((events.map AuditEvent.link).take i)[j]? = some a.link := by
    rw [List.getElem?_take_of_lt hj, List.getElem?_map, ha]
    rfl
  have hlink := intact_getElem hbefore hget
  rwa [List.take_take, Nat.min_eq_left (Nat.le_of_lt hj)] at hlink

/-- CORRECT: a rejected tampering is reported at the first link that fails either test, with the links
    before it all digested from what they hold; an accepted one has changed every digest from the first
    changed link to the head. -/
theorem break_exact {es es' : List AuditEvent} (h : Verified es) (hedit : List.Forall₂ Edited es es')
    (hfree : CollisionFree es es') :
    ∃ v, verify_chain es' = .ok v ∧
      (v.verified = false → ∃ i e, es'[i]? = some e ∧ v.broken_at = some (e.position i) ∧
        v.checked = i ∧ Fails es' i ∧ ∀ j < i, ¬ Fails es' j ∧ ∀ a a', es[j]? = some a →
          es'[j]? = some a' → a = a' ∨ digest_for a'.payload a'.prev_digest = .ok a'.digest) ∧
      (v.verified = true → ∀ (i : ℕ) (a a' : AuditEvent), es[i]? = some a → es'[i]? = some a' →
        ¬ a.Agrees a' → ∀ (j : ℕ) (e e' : AuditEvent), i ≤ j → es[j]? = some e → es'[j]? = some e' →
          e.digest ≠ e'.digest) := by
  have hverify := verify_chain_eq (edited_legible hedit)
  refine ⟨_, hverify, ?_, ?_⟩
  · intro hfalse
    cases hbreak : firstBreak chain_hash GENESIS (es'.map AuditEvent.link) with
    | none => simp [hbreak] at hfalse
    | some i =>
        obtain ⟨⟨e, he, hfail⟩, hbefore⟩ := firstBreak_links hbreak
        refine ⟨i, e, he, by simp [he], rfl, ⟨e, he, hfail⟩, fun j hj => ⟨hbefore j hj, ?_⟩⟩
        intro a a' _ ha'
        right
        by_contra hwrong
        exact hbefore j hj ⟨a', ha', .inr hwrong⟩
  · intro htrue i a a' ha ha' hdiff j e e' hij he he'
    have h' : Verified es' := ⟨_, hverify, htrue⟩
    exact rewritten_differ (verified_iff.mp h) (verified_iff.mp h') hfree hij ha ha' hdiff he he'

/-! ### A link digested anew, and a digest erased after it -/

/-- Two accepted links over `{}`. -/
def pair_chain : List AuditEvent :=
  [empty_link .DECISION GENESIS (empty_digest GENESIS),
    empty_link .DECISION (empty_digest GENESIS) (empty_digest (empty_digest GENESIS))]

/-- The first names another predecessor and is digested anew; the second has no digest. -/
def pair_edited : List AuditEvent :=
  [empty_link .DECISION (empty_digest GENESIS) (empty_digest (empty_digest GENESIS)),
    empty_link .DECISION (empty_digest GENESIS) ""]

theorem isDigest_empty : IsDigest (empty_digest GENESIS) :=
  digest_for_isDigest (digest_for_empty isDigest_genesis)

theorem empty_digests_differ : GENESIS ≠ empty_digest GENESIS ∧
    Sha256.sha256 (encode "{}" ++ List.replicate 32 0) ≠ Sha256.sha256 (encode "{}" ++
      Sha256.sha256 (encode "{}" ++ List.replicate 32 0)) := by
  constructor <;> decide +kernel

theorem verified_pair : Verified pair_chain := by
  rw [verified_iff, Chained, pair_chain, List.map_cons, List.map_singleton, Intact, Intact]
  exact ⟨⟨rfl, sound_iff.mpr (digest_for_empty isDigest_genesis)⟩,
    ⟨rfl, sound_iff.mpr (digest_for_empty isDigest_empty)⟩, trivial⟩

theorem edited_pair : List.Forall₂ Edited pair_chain pair_edited :=
  .cons ⟨rfl, _, canonical_json_empty⟩ (.cons ⟨rfl, _, canonical_json_empty⟩ .nil)

theorem hashed_empty {kind : AuditKind} {bs : List UInt8} (hlen : bs.length = 32) {digest : String} :
    hashed (empty_link kind (hexdigest bs) digest) = some (encode "{}" ++ bs) := by
  rw [hashed, empty_link, canonical_json_empty, digest_bytes_hexdigest hlen]
  rfl

theorem pair_free : CollisionFree pair_chain pair_edited := by
  have hempty : empty_digest GENESIS =
      hexdigest (Sha256.sha256 (encode "{}" ++ List.replicate 32 0)) := by
    decide +kernel
  have hedited : ∀ e' ∈ pair_edited, hashed e' = some (encode "{}" ++
      Sha256.sha256 (encode "{}" ++ List.replicate 32 0)) := by
    intro e' he'
    rcases List.mem_pair.mp he' with rfl | rfl
    all_goals
      rw [hempty]
      exact hashed_empty (Sha256.length_sha256 _)
  intro e he e' he' m hm m' hm' hsha
  obtain rfl := Option.some.inj ((hedited e' he').symm.trans hm')
  rcases List.mem_pair.mp he with rfl | rfl
  · obtain rfl := Option.some.inj ((hashed_empty List.length_replicate).symm.trans hm)
    exact absurd hsha empty_digests_differ.2
  · rw [hempty] at hm
    exact Option.some.inj (hm.symm.trans (hashed_empty (Sha256.length_sha256 _)))

theorem verify_pair_edited :
    verify_chain pair_edited = .ok { verified := false, broken_at := some 0, checked := 0 } := by
  rw [verify_chain, pair_edited, verify_from]
  exact if_pos empty_digests_differ.1.symm

theorem break_exact_pair : ∃ v, verify_chain pair_edited = .ok v ∧ v.verified = false ∧
    ∃ i, v.checked = i ∧ Fails pair_edited i := by
  obtain ⟨v, hv, hrejected, -⟩ := break_exact verified_pair edited_pair pair_free
  have hfalse : v.verified = false := by
    rw [verify_pair_edited] at hv
    rw [← Except.ok.inj hv]
  obtain ⟨i, e, -, -, hchecked, hfails, -⟩ := hrejected hfalse
  exact ⟨v, hv, hfalse, i, hchecked, hfails⟩

/-- The link's digest is not that of its payload and `prev_digest`. -/
def OwnWrong (events : List AuditEvent) (i : ℕ) : Prop :=
  ∃ e, events[i]? = some e ∧ digest_for e.payload e.prev_digest ≠ .ok e.digest

/-- The link does not name the digest before it. -/
def LinkWrong (events : List AuditEvent) (i : ℕ) : Prop :=
  ∃ e, events[i]? = some e ∧ e.prev_digest ≠ predecessor events i

/-- The break is not always at the first wrong digest: a wrong predecessor may come first. -/
theorem linkage_first : ¬ ∀ es es' : List AuditEvent, Verified es → List.Forall₂ Edited es es' →
    CollisionFree es es' → ∀ v, verify_chain es' = .ok v → v.verified = false →
      ∃ i e, es'[i]? = some e ∧ v.broken_at = some (e.position i) ∧
        ((OwnWrong es' i ∧ ∀ j < i, ¬ OwnWrong es' j) ∨
          (∀ j, ¬ OwnWrong es' j) ∧ LinkWrong es' i ∧ ∀ j < i, ¬ LinkWrong es' j) := by
  intro h
  obtain ⟨i, e, he, hbroken, hwrong⟩ :=
    h pair_chain pair_edited verified_pair edited_pair pair_free _ verify_pair_edited rfl
  have hposition : e.position i = i := by
    have hseq : ∀ a ∈ pair_edited, a.seq = none := by
      intro a ha
      rcases List.mem_pair.mp ha with rfl | rfl <;> rfl
    rw [AuditEvent.position, hseq e (List.mem_of_getElem? he), Option.getD_none]
  obtain rfl : 0 = i := (Option.some.inj hbroken).trans hposition
  have hown : ¬ OwnWrong pair_edited 0 := by
    rintro ⟨a, ha, hbad⟩
    obtain rfl := Option.some.inj ha
    exact hbad (digest_for_empty isDigest_empty)
  have hlater : OwnWrong pair_edited 1 := by
    refine ⟨_, rfl, ?_⟩
    rw [empty_link, digest_for_empty isDigest_empty]
    intro heq
    have hlength := congrArg String.length (Except.ok.inj heq)
    simp [empty_digest, hexdigest] at hlength
  rcases hwrong with ⟨hfirst, -⟩ | ⟨hnone, -⟩
  · exact hown hfirst
  · exact hnone 1 hlater

end GuardMem.Audit
