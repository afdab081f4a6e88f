import GuardMem.Governance
import GuardMem.Pipeline.NoiseFates

/-! What the classifier can drop.

    Verdicts are matched to turns by id, and a kept turn that was not shown may share the id of one that
    was. CORRECT: what the classifier drops was answered for once, with a reason, and every other turn the
    rules kept is kept, in order; the dropped turns are turns it was shown exactly where no kept turn
    outside the batch has the id of a dropped one in it (`shown_dropped_iff`). -/

namespace GuardMem

variable (lower : String → String) (fz : Rapidfuzz) (llm : Llm) (ns : Namespace) (canary : String)

/-- A turn that the rules keep without showing it has the id of a shown turn that the reply dismisses. -/
def Mistaken (turns : List Turn) (verdicts : List NoiseVerdict) : Prop :=
  ∃ (i : ℕ) (turn : Turn) (reason : NoiseReason), turns[i]? = some turn ∧
    rule_verdict lower turn (history_at lower turns i) = none ∧ shown lower fz turns i turn = false ∧
    Dismissed lower fz turns verdicts turn.turn_id reason

/-- The drops of the classifier are of turns it was shown exactly where no other turn has their id. -/
theorem shown_dropped_iff (turns : List Turn) (result : NoiseResult)
    (h : filter_noise lower fz llm ns canary turns = .ok result) :
    let verdicts := replied lower fz llm ns canary turns
    let settled : List TurnFate := fates lower fz turns verdicts
    (settled.map Prod.fst = turns ∧ result.kept = settled.filterMap TurnFate.survives ∧
      result.dropped = settled.filterMap (TurnFate.dropped_by .RULE) ++
        settled.filterMap (TurnFate.dropped_by .CLASSIFIER)) ∧
    (∀ (i : ℕ) (turn : Turn), turns[i]? = some turn →
      rule_verdict lower turn (history_at lower turns i) = none → settled[i]? = some (turn, none) ∨
        ∃ reason, settled[i]? = some (turn, some (reason, .CLASSIFIER))) ∧
    (∀ (i : ℕ) (turn : Turn) (reason : NoiseReason), settled[i]? = some (turn, some (reason, .CLASSIFIER)) →
      Dismisses verdicts turn.turn_id reason) ∧
    ((∀ (i : ℕ) (turn : Turn) (reason : NoiseReason), settled[i]? = some (turn, some (reason, .CLASSIFIER)) →
        shown lower fz turns i turn = true) ↔ ¬ Mistaken lower fz turns verdicts) := by
  intro verdicts settled
  refine ⟨⟨fates_map, filter_noise_eq h⟩, fun i turn hturn hrule => ?_,
    fun i turn reason hdropped => (classifier_dropped.mp hdropped).2.2.2, ?_⟩
  · by_cases hdismissed : ∃ reason, Dismissed lower fz turns verdicts turn.turn_id reason
    · obtain ⟨reason, hdismissed⟩ := hdismissed
      exact Or.inr ⟨reason, classifier_dropped.mpr ⟨hturn, hrule, hdismissed⟩⟩
    · exact Or.inl (survived.mpr ⟨hturn, hrule, not_exists.mp hdismissed⟩)
  · constructor
    · rintro hall ⟨i, turn, reason, hturn, hrule, hhidden, hdismissed⟩
      have hshown := hall i turn reason (classifier_dropped.mpr ⟨hturn, hrule, hdismissed⟩)
      rw [hhidden] at hshown
      cases hshown
    · intro hnot i turn reason hdropped
      obtain ⟨hturn, hrule, hdismissed⟩ := classifier_dropped.mp hdropped
      by_contra hhidden
      exact hnot ⟨i, turn, reason, hturn, hrule, Bool.eq_false_iff.mpr hhidden, hdismissed⟩

namespace Clinical

/-- No two texts are alike. -/
def unalike : Rapidfuzz := ⟨fun _ _ => 0, fun _ _ => none⟩

/-- The patient states an allergy, and then says something short, both under the one id. -/
def same_id : List Turn :=
  [⟨"turn-1", .USER, "the patient has been allergic to penicillin since childhood", none⟩,
    ⟨"turn-1", .USER, "let me see", none⟩]

def own_ids : List Turn :=
  [⟨"turn-0", .USER, "the patient has been allergic to penicillin since childhood", none⟩,
    ⟨"turn-1", .USER, "let me see", none⟩]

/-- The classifier calls the turn it was shown filler. -/
def dismissive : Llm := model [] [⟨"turn-1", true, some .EPHEMERAL⟩]

end Clinical

open Clinical in
/-- The statement is dropped with the turn that was shown, and was not shown. -/
theorem unshown_dropped : ¬ ∀ (i : ℕ) (turn : Turn) (reason : NoiseReason),
    (fates id unalike same_id (replied id unalike dismissive "patient:1" "canary" same_id))[i]? =
      some (turn, some (reason, .CLASSIFIER)) → shown id unalike same_id i turn = true := by
  intro hall
  have h := hall 0 ⟨"turn-1", .USER, "the patient has been allergic to penicillin since childhood", none⟩
    .EPHEMERAL (by decide +kernel)
  revert h
  decide +kernel

open Clinical in
/-- Under ids of their own the short turn alone is dropped. -/
theorem shown_dropped : ∃ result,
    filter_noise id unalike dismissive "patient:1" "canary" own_ids = .ok result ∧
      result.kept = own_ids.take 1 := by
  have hok : filter_noise id unalike dismissive "patient:1" "canary" own_ids =
      .ok ⟨own_ids.take 1, (own_ids.drop 1).map fun turn => ⟨turn, .EPHEMERAL, .CLASSIFIER⟩⟩ := by
    decide +kernel
  obtain ⟨⟨-, hkept, -⟩, -⟩ := shown_dropped_iff id unalike dismissive "patient:1" "canary" own_ids _ hok
  exact ⟨_, hok, hkept.trans (by decide +kernel)⟩

end GuardMem
