import GuardMem.Pipeline.Extractor
import GuardMem.Pipeline.NoiseRules

/-! Layer 1's noise filter: rules first, model second. `noise_filter.filter_noise`.

    One batched call settles what the rules declined, and every doubt about its answer keeps the turn.
    CORRECT: each turn is kept or dropped once, with the kept ones in the order of the conversation and
    the dropped ones in the order they were removed: the rules' first (`filter_noise_fates`). -/

namespace GuardMem

/-- Which tier of the filter decided a drop. -/
inductive DecidedBy where
  | RULE
  | CLASSIFIER
  deriving DecidableEq

structure DroppedTurn where
  turn : Turn
  reason : NoiseReason
  decided_by : DecidedBy
  deriving DecidableEq

/-- What survived the filter, and what did not. -/
structure NoiseResult where
  kept : List Turn
  dropped : List DroppedTurn
  deriving DecidableEq

/-- The classifier's answer for one turn. -/
structure NoiseVerdict where
  turn_id : TurnId
  drop : Bool
  reason : Option NoiseReason := none
  deriving DecidableEq

/-- The client both stages of Layer 1 call. -/
abbrev Llm := LLMClient ExtractedFact NoiseVerdict

/-- Serialise turns for the prompt, one delimited block each. -/
def render_turns (turns : List Turn) : String :=
  "\n".intercalate (turns.map fun turn =>
    "<turn id=\"" ++ turn.turn_id ++ "\" role=\"" ++ turn.role.value ++ "\">\n" ++ turn.text ++ "\n</turn>")

variable (lower : String → String) (fz : Rapidfuzz) (llm : Llm)

/-- The drops that are safe to act on: the turn was sent, it is answered for once, and with a reason. -/
def confident_drops (response : LLMResponse) (submitted : List Turn) : List (TurnId × NoiseReason) :=
  match llm.read_verdicts (response.samples.head response.sampled) with
  | none => []
  | some verdicts => verdicts.filterMap fun verdict =>
      if verdict.drop ∧ (submitted.any fun turn => turn.turn_id == verdict.turn_id) ∧
          (verdicts.countP fun other => other.turn_id == verdict.turn_id) = 1
      then verdict.reason.map fun reason => (verdict.turn_id, reason)
      else none

/-- Ask the FAST tier about the turns the rules declined. One call, batched. -/
def classify_turns (ns : Namespace) (canary : String) (turns : List Turn) :
    Except Exc (List (TurnId × NoiseReason)) := do
  let prompt := llm.render "classify_noise" 1
    [("subject", ns), ("canary", canary), ("turns", render_turns turns)]
  let response ← llm.complete { prompt, schema := "NoiseClassification", tier := .FAST }
  reject_echo canary response.samples
  .ok (confident_drops llm response turns)

/-- Move the classifier's drops out of `kept`, preserving order. -/
def apply_drops (kept : List Turn) (dropped : List DroppedTurn) (drops : List (TurnId × NoiseReason)) :
    NoiseResult where
  kept := kept.filter fun turn => (drops.lookup turn.turn_id).isNone
  dropped := dropped ++ kept.filterMap fun turn =>
    (drops.lookup turn.turn_id).map fun reason => ⟨turn, reason, .CLASSIFIER⟩

/-- Where the rules have got to. -/
structure Sifted where
  kept : List Turn := []
  dropped : List DroppedTurn := []
  ambiguous : List Turn := []
  history : TurnHistory := []

/-- The rules on one turn. Every turn, kept or dropped, is something already said. -/
def sift (acc : Sifted) (turn : Turn) : Sifted :=
  let history := acc.history ++ [normalise lower turn.text]
  match rule_verdict lower turn acc.history with
  | none => { kept := acc.kept ++ [turn], dropped := acc.dropped, history := history
              ambiguous := if is_ambiguous lower fz turn acc.history then acc.ambiguous ++ [turn]
                else acc.ambiguous }
  | some reason => { acc with dropped := acc.dropped ++ [⟨turn, reason, .RULE⟩], history := history }

/-- Drop the turns not worth extracting from, and say why for each one. -/
def filter_noise (ns : Namespace) (canary : String) (turns : List Turn) : Except Exc NoiseResult := do
  let sifted := turns.foldl (sift lower fz) {}
  if sifted.ambiguous.isEmpty then .ok ⟨sifted.kept, sifted.dropped⟩
  else do
    let drops ← classify_turns llm ns canary sifted.ambiguous
    .ok (apply_drops sifted.kept sifted.dropped drops)

/-! ### What becomes of the turns -/

/-- A turn and, where it was dropped, why and by whom. -/
abbrev TurnFate := Turn × Option (NoiseReason × DecidedBy)

def TurnFate.survives (fate : TurnFate) : Option Turn :=
  match fate.2 with
  | none => some fate.1
  | some _ => none

/-- Dropped by this tier. -/
def TurnFate.dropped_by (tier : DecidedBy) (fate : TurnFate) : Option DroppedTurn :=
  match fate.2 with
  | none => none
  | some (reason, decided_by) => if decided_by = tier then some ⟨fate.1, reason, tier⟩ else none

/-- The result lists each turn once: what is kept in the order of the turns, then what the rules dropped
    and what the classifier dropped, each in that order. -/
def Fates (turns : List Turn) (result : NoiseResult) : Prop :=
  ∃ fates : List TurnFate, fates.map Prod.fst = turns ∧ result.kept = fates.filterMap TurnFate.survives ∧
    result.dropped = fates.filterMap (TurnFate.dropped_by .RULE) ++
      fates.filterMap (TurnFate.dropped_by .CLASSIFIER)

variable {lower fz llm} {turns : List Turn} {acc : Sifted} {ns : Namespace} {canary : String}

/-- What the rules have settled so far. -/
def Sifted.Settled (turns : List Turn) (acc : Sifted) : Prop :=
  ∃ fates : List TurnFate, fates.map Prod.fst = turns ∧ acc.kept = fates.filterMap TurnFate.survives ∧
    acc.dropped = fates.filterMap (TurnFate.dropped_by .RULE) ∧
    ∀ fate ∈ fates, ∀ why ∈ fate.2, why.2 = DecidedBy.RULE

theorem sift_settled (h : acc.Settled turns) (turn : Turn) :
    (sift lower fz acc turn).Settled (turns ++ [turn]) := by
  obtain ⟨fates, hturns, hkept, hdropped, hrule⟩ := h
  unfold sift
  cases rule_verdict lower turn acc.history with
  | none =>
      refine ⟨fates ++ [(turn, none)], by simp [hturns], by simp [hkept, TurnFate.survives],
        by simp [hdropped, TurnFate.dropped_by], ?_⟩
      intro fate hfate why hwhy
      rcases List.mem_append.mp hfate with hfate | hfate
      · exact hrule fate hfate why hwhy
      · simp [List.mem_singleton.mp hfate] at hwhy
  | some reason =>
      refine ⟨fates ++ [(turn, some (reason, .RULE))], by simp [hturns], by simp [hkept, TurnFate.survives],
        by simp [hdropped, TurnFate.dropped_by], ?_⟩
      intro fate hfate why hwhy
      rcases List.mem_append.mp hfate with hfate | hfate
      · exact hrule fate hfate why hwhy
      · simp only [List.mem_singleton.mp hfate, Option.mem_some_iff] at hwhy
        exact hwhy ▸ rfl

theorem sifted_settled (turns : List Turn) : (turns.foldl (sift lower fz) {}).Settled turns := by
  induction turns using List.reverseRecOn with
  | nil => exact ⟨[], rfl, rfl, rfl, by simp⟩
  | append_singleton turns turn ih =>
      rw [List.foldl_append]
      exact sift_settled ih turn

/-- The classifier's say over a turn the rules kept. -/
def TurnFate.reclassify (drops : List (TurnId × NoiseReason)) (fate : TurnFate) : TurnFate :=
  match fate.2 with
  | none => (fate.1, (drops.lookup fate.1.turn_id).map fun reason => (reason, .CLASSIFIER))
  | some why => (fate.1, some why)

/-- The classifier's drops, over the rules': each turn they kept is looked up by its id. -/
theorem apply_drops_reclassify {fates : List TurnFate}
    (hrule : ∀ fate ∈ fates, ∀ why ∈ fate.2, why.2 = DecidedBy.RULE)
    (drops : List (TurnId × NoiseReason)) :
    apply_drops (fates.filterMap TurnFate.survives) (fates.filterMap (TurnFate.dropped_by .RULE)) drops =
      { kept := (fates.map (TurnFate.reclassify drops)).filterMap TurnFate.survives
        dropped := (fates.map (TurnFate.reclassify drops)).filterMap (TurnFate.dropped_by .RULE) ++
          (fates.map (TurnFate.reclassify drops)).filterMap (TurnFate.dropped_by .CLASSIFIER) } := by
  rw [apply_drops, NoiseResult.mk.injEq]
  refine ⟨?_, ?_⟩
  · simp only [List.filterMap_map, List.filter_filterMap]
    refine List.filterMap_congr fun fate _ => ?_
    obtain ⟨turn, _ | why⟩ := fate
    · cases hdrop : drops.lookup turn.turn_id <;>
        simp [TurnFate.survives, TurnFate.reclassify, hdrop, Option.filter]
    · rfl
  · simp only [List.filterMap_map, List.filterMap_filterMap]
    congr 1
    · refine List.filterMap_congr fun fate _ => ?_
      obtain ⟨turn, _ | why⟩ := fate
      · cases hdrop : drops.lookup turn.turn_id <;> simp [TurnFate.dropped_by, TurnFate.reclassify, hdrop]
      · rfl
    · refine List.filterMap_congr fun fate hfate => ?_
      obtain ⟨turn, _ | why⟩ := fate
      · cases hdrop : drops.lookup turn.turn_id <;>
          simp [TurnFate.survives, TurnFate.dropped_by, TurnFate.reclassify, hdrop]
      · have hby := hrule _ hfate why rfl
        simp [TurnFate.survives, TurnFate.dropped_by, TurnFate.reclassify, hby]

theorem reclassify_turn {drops : List (TurnId × NoiseReason)} {fate : TurnFate} :
    (fate.reclassify drops).1 = fate.1 := by
  obtain ⟨turn, _ | why⟩ := fate <;> rfl

theorem apply_drops_fates (h : acc.Settled turns) (drops : List (TurnId × NoiseReason)) :
    Fates turns (apply_drops acc.kept acc.dropped drops) := by
  obtain ⟨fates, hturns, hkept, hdropped, hrule⟩ := h
  have heq := apply_drops_reclassify hrule drops
  rw [← hkept, ← hdropped] at heq
  refine ⟨fates.map (TurnFate.reclassify drops), ?_, congrArg NoiseResult.kept heq,
    congrArg NoiseResult.dropped heq⟩
  rw [List.map_map, ← hturns]
  exact List.map_congr_left fun fate _ => reclassify_turn

/-- CORRECT: every turn is kept or dropped exactly once. -/
theorem filter_noise_fates {result : NoiseResult}
    (h : filter_noise lower fz llm ns canary turns = .ok result) : Fates turns result := by
  have hsettled := @sifted_settled lower fz turns
  unfold filter_noise at h
  dsimp only at h
  split_ifs at h with hempty
  · have hnone := apply_drops_fates hsettled []
    simp only [apply_drops, List.lookup_nil, Option.isNone_none, List.filter_true, Option.map_none,
      List.filterMap_none, List.append_nil] at hnone
    exact Except.ok.inj h ▸ hnone
  · obtain ⟨drops, -, hresult⟩ := bind_ok.mp h
    exact Except.ok.inj hresult ▸ apply_drops_fates hsettled drops

end GuardMem
