import GuardMem.Pipeline.NoiseFilter
import Mathlib.Data.List.ReduceOption

/-! What becomes of each turn, by its place in the conversation.

    A turn's fate is settled by what was said before it and, where the rules keep it, by the one verdict
    the reply has for its id. CORRECT: the filter's lists are the fates of the turns in order
    (`filter_noise_eq`), and an id is dropped exactly where it was shown and answered for once, with a
    drop and a reason (`lookup_safe_drops`). -/

namespace GuardMem

variable (lower : String → String) (fz : Rapidfuzz) (llm : Llm) (ns : Namespace) (canary : String)
  (turns : List Turn)

/-! ### Fates -/

/-- What was said before the turn at place `i`. -/
def history_at (i : ℕ) : TurnHistory := (turns.take i).map fun turn => normalise lower turn.text

/-- What the rules make of each turn. -/
def rule_fates : List TurnFate := turns.mapIdx fun i turn =>
  (turn, (rule_verdict lower turn (history_at lower turns i)).map fun reason => (reason, .RULE))

/-- The turn at place `i` is kept by the rules and put before the classifier. -/
def shown (i : ℕ) (turn : Turn) : Bool :=
  (rule_verdict lower turn (history_at lower turns i)).isNone && is_ambiguous lower fz turn (history_at lower turns i)

/-- The batch. -/
def ambiguous_turns : List Turn :=
  (turns.mapIdx fun i turn => if shown lower fz turns i turn then some turn else none).reduceOption

/-- The drops among a reply's verdicts that are safe to act on. -/
def safe_drops (verdicts : List NoiseVerdict) (submitted : List Turn) : List (TurnId × NoiseReason) :=
  verdicts.filterMap fun verdict =>
    if verdict.drop ∧ (submitted.any fun turn => turn.turn_id == verdict.turn_id) ∧
        (verdicts.countP fun other => other.turn_id == verdict.turn_id) = 1
    then verdict.reason.map fun reason => (verdict.turn_id, reason)
    else none

/-- The verdicts of the reply to the batch; none where it fails or does not parse. -/
def replied : List NoiseVerdict :=
  let prompt := llm.render "classify_noise" 1
    [("subject", ns), ("canary", canary), ("turns", render_turns (ambiguous_turns lower fz turns))]
  match llm.complete { prompt, schema := "NoiseClassification", tier := .FAST } with
  | .ok response => (llm.read_verdicts (response.samples.head response.sampled)).getD []
  | .error _ => []

/-- What becomes of each turn under a reply of these verdicts. -/
def fates (verdicts : List NoiseVerdict) : List TurnFate :=
  (rule_fates lower turns).map (TurnFate.reclassify (safe_drops verdicts (ambiguous_turns lower fz turns)))

variable {lower fz llm ns canary turns} {i : ℕ} {turn : Turn} {verdicts : List NoiseVerdict}
  {submitted : List Turn} {id : TurnId} {reason : NoiseReason} {result : NoiseResult}

/-! ### The rules -/

theorem said_append (hi : i ≤ turns.length) :
    history_at lower (turns ++ [turn]) i = history_at lower turns i := by
  rw [history_at, List.take_append_of_le_length hi, history_at]

/-- A later turn leaves what the rules make of the earlier ones alone. -/
theorem mapIdx_said {β : Type} {f : Turn → TurnHistory → β} :
    (turns ++ [turn]).mapIdx (fun i t => f t (history_at lower (turns ++ [turn]) i)) =
      turns.mapIdx (fun i t => f t (history_at lower turns i)) ++
        [f turn (turns.map fun t => normalise lower t.text)] := by
  rw [List.mapIdx_concat, said_append le_rfl, history_at, List.take_length]
  congr 1
  refine List.mapIdx_eq_mapIdx_iff.mpr fun i hi => ?_
  rw [said_append hi.le]

theorem sift_kept (acc : Sifted) (h : rule_verdict lower turn acc.history = none) :
    sift lower fz acc turn =
      { kept := acc.kept ++ [turn], dropped := acc.dropped
        ambiguous := acc.ambiguous ++ if is_ambiguous lower fz turn acc.history then [turn] else []
        history := acc.history ++ [normalise lower turn.text] } := by
  unfold sift
  rw [h]
  dsimp only
  split <;> simp

theorem sift_dropped (acc : Sifted) (h : rule_verdict lower turn acc.history = some reason) :
    sift lower fz acc turn =
      { acc with
        dropped := acc.dropped ++ [⟨turn, reason, .RULE⟩]
        history := acc.history ++ [normalise lower turn.text] } := by
  unfold sift
  rw [h]

/-- The loop over the turns, by their places. -/
theorem sifted_eq : turns.foldl (sift lower fz) {} =
    { kept := (rule_fates lower turns).filterMap TurnFate.survives
      dropped := (rule_fates lower turns).filterMap (TurnFate.dropped_by .RULE)
      ambiguous := ambiguous_turns lower fz turns
      history := turns.map fun turn => normalise lower turn.text } := by
  induction turns using List.reverseRecOn with
  | nil => rfl
  | append_singleton turns turn ih =>
      have hfates : rule_fates lower (turns ++ [turn]) = rule_fates lower turns ++
          [(turn, (rule_verdict lower turn (turns.map fun t => normalise lower t.text)).map
            fun reason => (reason, .RULE))] :=
        @mapIdx_said lower turns turn _ fun t history =>
          (t, (rule_verdict lower t history).map fun reason => (reason, DecidedBy.RULE))
      have hbatch : ambiguous_turns lower fz (turns ++ [turn]) = ambiguous_turns lower fz turns ++
          [if (rule_verdict lower turn (turns.map fun t => normalise lower t.text)).isNone &&
              is_ambiguous lower fz turn (turns.map fun t => normalise lower t.text)
            then some turn else none].reduceOption := by
        rw [ambiguous_turns, ambiguous_turns, ← List.reduceOption_append]
        exact congrArg _ (@mapIdx_said lower turns turn _ fun t history =>
          if (rule_verdict lower t history).isNone && is_ambiguous lower fz t history then some t else none)
      rw [List.foldl_append, ih, List.foldl_cons, List.foldl_nil, hfates, hbatch, List.map_append]
      generalize (turns.map fun t => normalise lower t.text) = history
      cases hverdict : rule_verdict lower turn history with
      | none =>
          rw [sift_kept ⟨_, _, _, history⟩ hverdict]
          by_cases hambiguous : is_ambiguous lower fz turn history <;>
            simp [hambiguous, TurnFate.survives, TurnFate.dropped_by, List.reduceOption]
      | some reason =>
          rw [sift_dropped ⟨_, _, _, history⟩ hverdict]
          simp [TurnFate.survives, TurnFate.dropped_by, List.reduceOption]

theorem rule_fates_rule : ∀ fate ∈ rule_fates lower turns, ∀ why ∈ fate.2, why.2 = DecidedBy.RULE := by
  intro fate hfate why hwhy
  obtain ⟨i, hi, rfl⟩ := List.mem_mapIdx.mp hfate
  obtain ⟨reason, -, rfl⟩ := Option.map_eq_some_iff.mp hwhy
  rfl

theorem mem_ambiguous_turns : turn ∈ ambiguous_turns lower fz turns ↔
    ∃ i, turns[i]? = some turn ∧ shown lower fz turns i turn := by
  rw [ambiguous_turns, List.reduceOption_mem_iff, List.mem_mapIdx]
  constructor
  · rintro ⟨i, hi, h⟩
    split_ifs at h with hshown
    obtain rfl := Option.some.inj h
    exact ⟨i, List.getElem?_eq_getElem hi, hshown⟩
  · rintro ⟨i, hget, hshown⟩
    obtain ⟨hi, rfl⟩ := List.getElem?_eq_some_iff.mp hget
    exact ⟨i, hi, if_pos hshown⟩

/-! ### The reply -/

/-- The reply has one verdict for the id: to drop it, for this reason. -/
def Dismisses (verdicts : List NoiseVerdict) (id : TurnId) (reason : NoiseReason) : Prop :=
  (verdicts.countP fun other => other.turn_id == id) = 1 ∧
    ∃ verdict ∈ verdicts, verdict.turn_id = id ∧ verdict.drop = true ∧ verdict.reason = some reason

theorem mem_safe_drops : (id, reason) ∈ safe_drops verdicts submitted ↔
    (∃ turn ∈ submitted, turn.turn_id = id) ∧ Dismisses verdicts id reason := by
  simp only [safe_drops, List.mem_filterMap, Option.ite_none_right_eq_some, Option.map_eq_some_iff,
    Prod.mk.injEq, List.any_eq_true, beq_iff_eq, Dismisses]
  constructor
  · rintro ⟨verdict, hverdict, ⟨hdrop, hsent, hone⟩, r, hr, rfl, rfl⟩
    exact ⟨hsent, hone, verdict, hverdict, rfl, hdrop, hr⟩
  · rintro ⟨hsent, hone, verdict, hverdict, rfl, hdrop, hr⟩
    exact ⟨verdict, hverdict, ⟨hdrop, hsent, hone⟩, reason, hr, rfl, rfl⟩

theorem answered_unique {reason' : NoiseReason} (h : Dismisses verdicts id reason)
    (h' : Dismisses verdicts id reason') : reason = reason' := by
  obtain ⟨hone, v, hv, hid, -, hreason⟩ := h
  obtain ⟨-, v', hv', hid', -, hreason'⟩ := h'
  rw [List.countP_eq_length_filter, List.length_eq_one_iff] at hone
  obtain ⟨only, honly⟩ := hone
  have hsame : ∀ w ∈ verdicts, w.turn_id = id → w = only := fun w hw hwid => by
    have hmem : w ∈ verdicts.filter fun other => other.turn_id == id :=
      List.mem_filter.mpr ⟨hw, beq_iff_eq.mpr hwid⟩
    rw [honly] at hmem
    exact List.mem_singleton.mp hmem
  rw [hsame v hv hid] at hreason
  rw [hsame v' hv' hid'] at hreason'
  exact Option.some.inj (hreason.symm.trans hreason')

/-- CORRECT: an id is dropped exactly where it was sent and answered for once, with a drop and a reason. -/
theorem lookup_safe_drops : (safe_drops verdicts submitted).lookup id = some reason ↔
    (∃ turn ∈ submitted, turn.turn_id = id) ∧ Dismisses verdicts id reason := by
  rw [← mem_safe_drops]
  constructor
  · intro h
    obtain ⟨before, after, heq, -⟩ := List.lookup_eq_some_iff.mp h
    exact heq ▸ List.mem_append_right _ List.mem_cons_self
  · intro h
    obtain ⟨r, hr⟩ : ∃ r, (safe_drops verdicts submitted).lookup id = some r := by
      rw [← Option.isSome_iff_exists, List.lookup_isSome_iff]
      exact ⟨_, h, beq_self_eq_true id⟩
    obtain ⟨before, after, heq, -⟩ := List.lookup_eq_some_iff.mp hr
    have hmem : (id, r) ∈ safe_drops verdicts submitted := heq ▸ List.mem_append_right _ List.mem_cons_self
    rw [hr, answered_unique (mem_safe_drops.mp hmem).2 (mem_safe_drops.mp h).2]

/-! ### The filter -/

/-- CORRECT: the filter's lists are the fates of the turns under the reply to their batch. -/
theorem filter_noise_eq (h : filter_noise lower fz llm ns canary turns = .ok result) :
    let settled := fates lower fz turns (replied lower fz llm ns canary turns)
    result.kept = settled.filterMap TurnFate.survives ∧
      result.dropped = settled.filterMap (TurnFate.dropped_by .RULE) ++
        settled.filterMap (TurnFate.dropped_by .CLASSIFIER) := by
  have happly : result = apply_drops ((rule_fates lower turns).filterMap TurnFate.survives)
      ((rule_fates lower turns).filterMap (TurnFate.dropped_by .RULE))
      (safe_drops (replied lower fz llm ns canary turns) (ambiguous_turns lower fz turns)) := by
    unfold filter_noise at h
    rw [sifted_eq] at h
    dsimp only at h
    split_ifs at h with hempty
    · have hnone : ∀ verdicts, safe_drops verdicts (ambiguous_turns lower fz turns) = [] := by
        intro verdicts
        simp [safe_drops, List.isEmpty_iff.mp hempty]
      rw [hnone]
      simpa [apply_drops, eq_comm] using h
    · obtain ⟨drops, hdrops, hresult⟩ := bind_ok.mp h
      obtain ⟨response, hresponse, hrest⟩ := bind_ok.mp hdrops
      obtain ⟨-, -, hconfident⟩ := bind_ok.mp hrest
      have hsafe : drops = safe_drops (replied lower fz llm ns canary turns)
          (ambiguous_turns lower fz turns) := by
        rw [← Except.ok.inj hconfident, confident_drops, replied, hresponse]
        dsimp only
        cases llm.read_verdicts (response.samples.head response.sampled) <;> rfl
      rw [← Except.ok.inj hresult, hsafe]
  rw [apply_drops_reclassify rule_fates_rule] at happly
  exact ⟨congrArg NoiseResult.kept happly, congrArg NoiseResult.dropped happly⟩

/-! ### One turn -/

/-- A turn the rules keep is dropped by its id alone. -/
theorem fates_kept {verdict : Option (NoiseReason × DecidedBy)} :
    (fates lower fz turns verdicts)[i]? = some (turn, verdict) ↔ turns[i]? = some turn ∧
      verdict = match rule_verdict lower turn (history_at lower turns i) with
        | some reason => some (reason, .RULE)
        | none => ((safe_drops verdicts (ambiguous_turns lower fz turns)).lookup turn.turn_id).map
            fun reason => (reason, .CLASSIFIER) := by
  rw [fates, List.getElem?_map, rule_fates, List.getElem?_mapIdx, Option.map_map, Option.map_eq_some_iff]
  constructor
  · rintro ⟨turn', hturn', h⟩
    cases hverdict : rule_verdict lower turn' (history_at lower turns i) <;>
      simp only [Function.comp, hverdict, TurnFate.reclassify, Option.map_none, Option.map_some,
        Prod.mk.injEq] at h <;> obtain ⟨rfl, rfl⟩ := h <;> exact ⟨hturn', by simp [hverdict]⟩
  · rintro ⟨hturn, rfl⟩
    refine ⟨turn, hturn, ?_⟩
    cases hverdict : rule_verdict lower turn (history_at lower turns i) <;>
      simp [TurnFate.reclassify, hverdict]

/-- Each turn has one fate. -/
theorem fates_map : (fates lower fz turns verdicts).map Prod.fst = turns := by
  refine List.ext_getElem? fun i => ?_
  rw [fates, rule_fates, List.map_map, List.getElem?_map, List.getElem?_mapIdx, Option.map_map]
  simp [Function.comp_def, reclassify_turn]

variable (lower fz turns) in
/-- A turn in the batch has this id, and the reply dismisses it. -/
def Dismissed (verdicts : List NoiseVerdict) (id : TurnId) (reason : NoiseReason) : Prop :=
  (∃ (k : ℕ) (other : Turn), turns[k]? = some other ∧ shown lower fz turns k other = true ∧
    other.turn_id = id) ∧ Dismisses verdicts id reason

theorem lookup_dismissed : (safe_drops verdicts (ambiguous_turns lower fz turns)).lookup id = some reason ↔
    Dismissed lower fz turns verdicts id reason := by
  simp only [lookup_safe_drops, mem_ambiguous_turns, Dismissed]
  refine and_congr_left fun _ => ⟨?_, ?_⟩
  · rintro ⟨other, ⟨k, hk, hshown⟩, hid⟩
    exact ⟨k, other, hk, hshown, hid⟩
  · rintro ⟨k, other, hk, hshown, hid⟩
    exact ⟨other, ⟨k, hk, hshown⟩, hid⟩

/-- The classifier drops a turn the rules kept under an id that is dismissed. -/
theorem classifier_dropped : (fates lower fz turns verdicts)[i]? = some (turn, some (reason, .CLASSIFIER)) ↔
    turns[i]? = some turn ∧ rule_verdict lower turn (history_at lower turns i) = none ∧
      Dismissed lower fz turns verdicts turn.turn_id reason := by
  rw [fates_kept]
  refine and_congr_right fun _ => ?_
  cases rule_verdict lower turn (history_at lower turns i) with
  | some r => simp
  | none =>
      simp only [true_and]
      rw [eq_comm, Option.map_eq_some_iff]
      simp only [Prod.mk.injEq, and_true, exists_eq_right, lookup_dismissed]

/-- What is kept was kept by the rules, under an id that is not dismissed. -/
theorem survived : (fates lower fz turns verdicts)[i]? = some (turn, none) ↔
    turns[i]? = some turn ∧ rule_verdict lower turn (history_at lower turns i) = none ∧
      ∀ reason, ¬ Dismissed lower fz turns verdicts turn.turn_id reason := by
  rw [fates_kept]
  refine and_congr_right fun _ => ?_
  cases rule_verdict lower turn (history_at lower turns i) with
  | some r => simp
  | none =>
      simp only [true_and, ← lookup_dismissed]
      rw [eq_comm, Option.map_eq_none_iff, Option.eq_none_iff_forall_ne_some]

/-- The rules drop a turn for what was said before it. -/
theorem rule_dropped : (fates lower fz turns verdicts)[i]? = some (turn, some (reason, .RULE)) ↔
    turns[i]? = some turn ∧ rule_verdict lower turn (history_at lower turns i) = some reason := by
  rw [fates_kept]
  refine and_congr_right fun _ => ?_
  cases rule_verdict lower turn (history_at lower turns i) with
  | some r => simp [eq_comm]
  | none =>
      rw [eq_comm, Option.map_eq_some_iff]
      simp

end GuardMem
