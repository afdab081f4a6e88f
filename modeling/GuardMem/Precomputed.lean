import GuardMem.Lib.Table
import GuardMem.LoneClaim
import GuardMem.Pipeline.Judge

/-! The entailment lookup that scoring reads: `LLMEntailer.lookup` over `inputs.entail_pairs`.

    Every question scoring may ask is sent in one batch, without repetitions or self-pairs, and answered by
    position. CORRECT: whatever reply is accepted, each question the clustering and the grounding ask is
    answered with the score at its own place in the batch, a text entails itself, and a reply of another
    length is refused (`every_question_answered`). -/

namespace GuardMem

open Lib

/-- What is sent: each pair once, and none with itself. -/
def wanted (pairs : List EntailmentPair) : List EntailmentPair := pairs.eraseDups.filter fun p => p.1 ≠ p.2

/-- What comparing the samples at two places asks: the reverse only where the forward one agreed. -/
def questions_at (py : Python) (samples : List (Option String)) (entail : EntailFn) (pair : ℕ × ℕ) :
    List EntailmentPair :=
  match samples.getD pair.1 none, samples.getD pair.2 none with
  | some first, some second =>
      match entail first second with
      | .ok forward => if SAME_MEANING py ≤ forward then [(first, second), (second, first)] else [(first, second)]
      | .error _ => [(first, second)]
  | _, _ => []

/-- What scoring a candidate asks: the clustering of its draws, then its grounding. -/
def questions (py : Python) (draws : List (Option String)) (verbatim claim : String) (entail : EntailFn) :
    List EntailmentPair :=
  (combinations (List.range draws.length)).flatMap (questions_at py draws entail) ++ [(verbatim, claim)]

variable {py : Python} {lib : Stdlib} {client : BatchClient UnitFloat} {canary : String}
  {pairs : List EntailmentPair} {draws : List (Option String)} {verbatim claim : String}
  {entail entail' : EntailFn} {scores : List UnitFloat} {q : EntailmentPair}

/-! ### The batch -/

theorem mem_wanted : q ∈ wanted pairs ↔ q ∈ pairs ∧ q.1 ≠ q.2 := by
  simp [wanted]

theorem wanted_nodup (pairs : List EntailmentPair) : (wanted pairs).Nodup :=
  List.Nodup.filter _ Table.nodup_eraseDups

theorem lookup_eq {reply : List EntailmentPair → Except Exc (List UnitFloat)} :
    LLMEntailer.lookup lib reply pairs =
      (if wanted pairs = [] then .ok [] else scored_batch reply (wanted pairs)) >>= fun scores =>
        .ok (reader lib ((wanted pairs).zip scores)) := by
  rw [LLMEntailer.lookup]
  change (if wanted pairs = [] then _ else _) = _
  split_ifs <;> rfl

/-- The lookup is the reader of a batch of as many scores as pairs. -/
theorem lookup_ok {reply : List EntailmentPair → Except Exc (List UnitFloat)}
    (h : LLMEntailer.lookup lib reply pairs = .ok entail) :
    ∃ scores, scores.length = (wanted pairs).length ∧ (wanted pairs ≠ [] → reply (wanted pairs) = .ok scores) ∧
      entail = reader lib ((wanted pairs).zip scores) := by
  rw [lookup_eq] at h
  obtain ⟨scores, hscores, hreader⟩ := bind_ok.mp h
  refine ⟨scores, ?_, fun hne => ?_, (Except.ok.inj hreader).symm⟩
  · split_ifs at hscores with hnil
    · rw [← Except.ok.inj hscores, hnil, List.length_nil, List.length_nil]
    · obtain ⟨found, -, hchecked⟩ := bind_ok.mp hscores
      split_ifs at hchecked with hlength
      rw [← Except.ok.inj hchecked]
      exact not_not.mp hlength
  · rw [if_neg hne] at hscores
    obtain ⟨found, hfound, hchecked⟩ := bind_ok.mp hscores
    split_ifs at hchecked
    rw [hfound, Except.ok.inj hchecked]

/-- A batch of another length is refused. -/
theorem lookup_refused {reply : List EntailmentPair → Except Exc (List UnitFloat)} (hne : wanted pairs ≠ [])
    (hreply : reply (wanted pairs) = .ok scores) (hlength : scores.length ≠ (wanted pairs).length) :
    ∃ message, LLMEntailer.lookup lib reply pairs = .error (.ValidationRejected message) := by
  rw [lookup_eq, if_neg hne, scored_batch, hreply]
  simp only [bind, Except.bind, if_pos hlength]
  exact ⟨_, rfl⟩

/-- The reader answers what was sent, from its place, and self-pairs. -/
theorem reader_answers (hlength : scores.length = (wanted pairs).length) (hq : q ∈ pairs) :
    q.1 = q.2 ∧ reader lib ((wanted pairs).zip scores) q.1 q.2 = .ok 1 ∨
      q.1 ≠ q.2 ∧ ∃ (k : ℕ) (score : UnitFloat), (wanted pairs)[k]? = some q ∧ scores[k]? = some score ∧
        reader lib ((wanted pairs).zip scores) q.1 q.2 = .ok score.1 := by
  rcases eq_or_ne q.1 q.2 with hself | hne
  · exact Or.inl ⟨hself, if_pos hself⟩
  · obtain ⟨k, score, hk, hscore, hfound⟩ := Table.lookup_zip hlength.symm (mem_wanted.mpr ⟨hq, hne⟩)
    refine Or.inr ⟨hne, k, score, hk, hscore, ?_⟩
    have hfound' : List.lookup (q.1, q.2) ((wanted pairs).zip scores) = some score := hfound
    rw [reader, if_neg hne, hfound']

/-! ### The questions -/

/-- What is asked of two draws was sent. -/
theorem mem_questions (h : q ∈ questions py draws verbatim claim entail) :
    q ∈ entail_pairs draws verbatim claim := by
  rcases List.mem_append.mp h with hasked | hground
  · obtain ⟨⟨i, j⟩, hpair, hq⟩ := List.mem_flatMap.mp hasked
    unfold questions_at at hq
    cases hs : draws.getD i none with
    | none => simp only [hs, List.not_mem_nil] at hq
    | some s =>
        cases ht : draws.getD j none with
        | none => simp only [hs, ht, List.not_mem_nil] at hq
        | some t =>
            have hboth := @mem_entail_pairs draws verbatim claim s t i j hpair hs ht
            have hq' : q = (s, t) ∨ q = (t, s) := by
              simp only [hs, ht] at hq
              split at hq
              · split_ifs at hq
                · simpa using hq
                · exact Or.inl (by simpa using hq)
              · exact Or.inl (by simpa using hq)
            rcases hq' with rfl | rfl
            · exact hboth.1
            · exact hboth.2
  · rw [List.mem_singleton.mp hground]
    exact List.mem_cons_self

/-- A lookup that was accepted lets the clustering finish. -/
theorem cluster_meanings_answered (hdraws : draws ≠ [])
    (hlength : scores.length = (wanted (entail_pairs draws verbatim claim)).length)
    (hentail : entail = reader lib ((wanted (entail_pairs draws verbatim claim)).zip scores)) :
    ∃ clusters, cluster_meanings py lib draws entail = .ok clusters := by
  have hanswered : ∀ s t, (s, t) ∈ entail_pairs draws verbatim claim →
      entail s t = .ok ((entail s t).toOption.getD 0) := by
    intro s t hmem
    rcases @reader_answers lib _ _ (s, t) hlength hmem with ⟨-, hone⟩ | ⟨-, k, score, -, -, hscore⟩
    · rw [hentail]
      exact hone.trans (by rw [show reader lib _ s t = .ok 1 from hone]; rfl)
    · rw [hentail]
      exact hscore.trans (by rw [show reader lib _ s t = .ok score.1 from hscore]; rfl)
  have hmerged := @foldlM_compare py draws entail (fun s t => (entail s t).toOption.getD 0)
    (combinations (List.range draws.length)) Forest.singletons fun pair hpair s t hs ht => by
      obtain ⟨hforward, hback⟩ := @mem_entail_pairs draws verbatim claim s t pair.1 pair.2 hpair hs ht
      exact ⟨hanswered s t hforward, hanswered t s hback⟩
  rw [cluster_meanings, if_neg hdraws, hmerged]
  exact ⟨_, rfl⟩

/-- Comparing two draws reads nothing else. -/
theorem compare_samples_congr {parent : Forest} {pair : ℕ × ℕ}
    (h : ∀ q ∈ questions_at py draws entail pair, entail' q.1 q.2 = entail q.1 q.2) :
    compare_samples py draws entail' parent pair = compare_samples py draws entail parent pair := by
  unfold compare_samples
  cases hs : draws.getD pair.1 none with
  | none => rfl
  | some s =>
      cases ht : draws.getD pair.2 none with
      | none => rfl
      | some t =>
          simp only [questions_at, hs, ht] at h
          cases hforward : entail s t with
          | error exc =>
              simp only [hforward] at h
              have hfirst : entail' s t = entail s t := h (s, t) (by simp)
              simp only [hfirst, hforward, bind, Except.bind]
          | ok forward =>
              simp only [hforward] at h
              split_ifs at h with hcut
              · have hfirst : entail' s t = entail s t := h (s, t) (by simp)
                have hback : entail' t s = entail t s := h (t, s) (by simp)
                simp only [hfirst, hback]
              · have hfirst : entail' s t = entail s t := h (s, t) (by simp)
                simp only [hfirst, hforward, bind, Except.bind, if_neg hcut]

theorem foldlM_congr : ∀ (order : List (ℕ × ℕ)) (parent : Forest),
    (∀ q ∈ order.flatMap (questions_at py draws entail), entail' q.1 q.2 = entail q.1 q.2) →
    order.foldlM (compare_samples py draws entail') parent =
      order.foldlM (compare_samples py draws entail) parent
  | [], _, _ => rfl
  | pair :: order, parent, h => by
      rw [List.foldlM_cons, List.foldlM_cons, compare_samples_congr fun q hq =>
        h q (List.mem_flatMap.mpr ⟨pair, List.mem_cons_self, hq⟩)]
      refine congrArg _ (funext fun parent => foldlM_congr order parent fun q hq => ?_)
      obtain ⟨p, hp, hq⟩ := List.mem_flatMap.mp hq
      exact h q (List.mem_flatMap.mpr ⟨p, List.mem_cons_of_mem _ hp, hq⟩)

/-- CORRECT: of every accepted reply, what scoring asks is answered: 1 where a text is asked about itself,
    and otherwise the score at the one place of the batch where that premise and that hypothesis stand.
    Clustering raises nothing and depends on no other answer, and a reply of another length is refused. -/
theorem every_question_answered (py : Python) (lib : Stdlib) (client : BatchClient UnitFloat) (canary : String)
    (draws : List (Option String)) (verbatim claim : String) :
    (∀ entail, LLMEntailer.lookup lib (LLMEntailer.score client canary) (entail_pairs draws verbatim claim) = .ok entail →
      ∃ scores, scores.length = (wanted (entail_pairs draws verbatim claim)).length ∧
        (wanted (entail_pairs draws verbatim claim) ≠ [] →
          LLMEntailer.score client canary (wanted (entail_pairs draws verbatim claim)) = .ok scores) ∧
        (∀ q ∈ questions py draws verbatim claim entail,
          q.1 = q.2 ∧ entail q.1 q.2 = .ok 1 ∨
            q.1 ≠ q.2 ∧ ∃! k : ℕ, (wanted (entail_pairs draws verbatim claim))[k]? = some q ∧
              ∃ score, scores[k]? = some score ∧ entail q.1 q.2 = .ok score.1) ∧
        (draws ≠ [] → ∃ clusters, cluster_meanings py lib draws entail = .ok clusters) ∧
        ∀ entail', (∀ q ∈ questions py draws verbatim claim entail, entail' q.1 q.2 = entail q.1 q.2) →
          cluster_meanings py lib draws entail' = cluster_meanings py lib draws entail) ∧
    ∀ scores, wanted (entail_pairs draws verbatim claim) ≠ [] →
      LLMEntailer.score client canary (wanted (entail_pairs draws verbatim claim)) = .ok scores →
      scores.length ≠ (wanted (entail_pairs draws verbatim claim)).length →
        ∃ message, LLMEntailer.lookup lib (LLMEntailer.score client canary) (entail_pairs draws verbatim claim) =
          .error (.ValidationRejected message) := by
  refine ⟨fun entail h => ?_, fun scores hne hreply hlength => lookup_refused hne hreply hlength⟩
  obtain ⟨scores, hlength, hreply, hreader⟩ := lookup_ok h
  refine ⟨scores, hlength, hreply, fun q hq => ?_, fun hdraws => ?_, fun entail' hagree => ?_⟩
  · have hanswer := @reader_answers lib _ _ q hlength (mem_questions hq)
    rw [← hreader] at hanswer
    rcases hanswer with hself | ⟨hne, k, score, hk, hscore, hentail⟩
    · exact Or.inl hself
    · refine Or.inr ⟨hne, k, ⟨hk, score, hscore, hentail⟩, fun j hj => ?_⟩
      have hbound := (List.getElem?_eq_some_iff.mp hj.1).1
      exact (List.getElem?_inj hbound (wanted_nodup _)).mp (hj.1.trans hk.symm)
  · exact cluster_meanings_answered hdraws hlength hreader
  · unfold cluster_meanings
    rw [foldlM_congr _ _ fun q hq => hagree q (List.mem_append_left _ hq)]

namespace Clinical

/-- A model that answers three questions. -/
def three_scores : BatchClient UnitFloat where
  provider _ := .ok ⟨["[0.9, 0.8, 0.1]"], List.cons_ne_nil _ _⟩
  render name _ _ := name
  read _ := some [percent 90, percent 80, percent 10]

def answered_draws : List (Option String) := [some "penicillin", none, some "amoxicillin", some "penicillin"]

end Clinical

open Clinical in
/-- Four draws, one of them silent and two alike: three questions are sent, and the clustering finishes. -/
theorem draws_answered : (wanted (entail_pairs answered_draws "penicillin" "allergic to penicillin")).length = 3 ∧
    ∃ entail, LLMEntailer.lookup few_draws (LLMEntailer.score three_scores "canary")
      (entail_pairs answered_draws "penicillin" "allergic to penicillin") = .ok entail ∧
    ∃ clusters, cluster_meanings python few_draws answered_draws entail = .ok clusters := by
  have hlookup : (LLMEntailer.lookup few_draws (LLMEntailer.score three_scores "canary")
      (entail_pairs answered_draws "penicillin" "allergic to penicillin")).isOk = true := by decide +kernel
  obtain ⟨hanswered, -⟩ := every_question_answered python few_draws three_scores "canary" answered_draws
    "penicillin" "allergic to penicillin"
  cases h : LLMEntailer.lookup few_draws (LLMEntailer.score three_scores "canary")
      (entail_pairs answered_draws "penicillin" "allergic to penicillin") with
  | error exc =>
      rw [h] at hlookup
      cases hlookup
  | ok entail =>
      obtain ⟨-, -, -, -, hclusters, -⟩ := hanswered entail h
      exact ⟨by decide +kernel, entail, rfl, hclusters (List.cons_ne_nil _ _)⟩

end GuardMem
