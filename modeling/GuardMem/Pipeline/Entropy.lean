import GuardMem.Lib.UnionFind
import GuardMem.Pipeline.Extractor

/-! Uncertainty over meanings: `entropy.cluster_meanings`, fed by `inputs.draws_for` and asked through
    `LLMEntailer.lookup`.

    CORRECT: no question the clustering asks was left out of the batch, so a model that answers the batch
    leaves nothing to raise (`confidence_inputs_ok`), and two draws share a label exactly where a chain of
    mutual entailments joins them, the label being the first of them (`cluster_meanings_ok`). -/

namespace GuardMem

/-- A premise and a hypothesis. -/
abbrev EntailmentPair := String × String

/-- `P(premise ⊨ hypothesis)`, or a question nobody scored. -/
abbrev EntailFn := String → String → Except Exc ℚ

/-- What the libraries do here: `json.dumps` with sorted keys, `repr` of a text, `math.log`, and `np.log`
    and `sum` over an array. -/
structure Stdlib where
  dumps : ObjectValue → String
  repr : String → String
  math_log : ℚ → ℚ
  np_log : ℚ → ℚ
  np_sum : List ℚ → ℚ

/-- `itertools.combinations(xs, 2)`. -/
def combinations {α : Type} : List α → List (α × α)
  | [] => []
  | x :: xs => xs.map (fun y => (x, y)) ++ combinations xs

variable (py : Python) (lib : Stdlib)

/-! ### What is compared -/

/-- An object value as text. -/
def render : ObjectValue → String
  | .str s => s
  | value => lib.dumps value

/-- This draw's answer for the candidate's pair, or `None`. -/
def first_object (candidate : MemoryCandidate) (draw : List ExtractedFact) : Option String :=
  (draw.find? fun fact => fact.subject = candidate.subject ∧ fact.predicate = candidate.predicate).map
    fun fact => render lib fact.object

/-- What each draw said about this candidate's subject and predicate. -/
def draws_for (samples : List (List ExtractedFact)) (candidate : MemoryCandidate) : List (Option String) :=
  samples.map (first_object lib candidate)

/-- Render a candidate as a sentence an entailment model can judge. -/
def claim_text (candidate : MemoryCandidate) : String :=
  candidate.subject ++ " " ++ candidate.predicate.map (fun c => if c = '_' then ' ' else c) ++ " " ++
    render lib candidate.object

/-- Every entailment question Layer 3 is about to ask: grounding, then both directions of each pair. -/
def entail_pairs (draws : List (Option String)) (verbatim claim : String) : List EntailmentPair :=
  (verbatim, claim) :: (combinations (draws.filterMap id)).flatMap fun p => [(p.1, p.2), (p.2, p.1)]

/-! ### The lookup -/

/-- Answer from the scored pairs alone; a text entails itself. -/
def reader (answers : List (EntailmentPair × UnitFloat)) : EntailFn := fun premise hypothesis =>
  if premise = hypothesis then .ok 1
  else match answers.lookup (premise, hypothesis) with
    | some score => .ok score.1
    | none => .error (.KeyError
        ("entailment was not scored for this pair, and this callable does not invent one. Pass every " ++
          "pair to `LLMEntailer.lookup` before scoring. Missing premise=" ++ lib.repr premise ++
          " hypothesis=" ++ lib.repr hypothesis))

/-- One batch: as many scores as pairs, or a refusal. -/
def scored_batch (reply : List EntailmentPair → Except Exc (List UnitFloat)) (pairs : List EntailmentPair) :
    Except Exc (List UnitFloat) := do
  let scores ← reply pairs
  if scores.length ≠ pairs.length then .error (.ValidationRejected
    ("entailment scoring returned " ++ toString scores.length ++ " scores for " ++ toString pairs.length ++
      " pairs; they are paired positionally, so a mismatch would score the wrong pair"))
  else .ok scores

/-- Score every pair in one call and return the callable over them. -/
def LLMEntailer.lookup (reply : List EntailmentPair → Except Exc (List UnitFloat))
    (pairs : List EntailmentPair) : Except Exc EntailFn := do
  let wanted := pairs.eraseDups.filter fun p => p.1 ≠ p.2
  let scores ← if wanted = [] then .ok [] else scored_batch reply wanted
  .ok (reader lib (wanted.zip scores))

/-! ### Clustering -/

/-- `same_meaning` iff entailment is at least this in both directions. -/
def SAME_MEANING : ℚ := py.round (8 / 10)

/-- How K samples partition into meanings, and how uncertain that is. -/
structure MeaningClusters where
  labels : List ℕ
  entropy : UnitFloat
  minority : List ℕ

/-- Cluster sizes to `H_norm`; at one sample it is zero. -/
def normalised_entropy (labels : List ℕ) : UnitFloat :=
  if labels.length = 1 then .zero
  else
    let probabilities := labels.eraseDups.map fun label => py.div (labels.count label) labels.length
    let entropy := -lib.np_sum (probabilities.map fun p => py.mul p (lib.np_log p))
    ⟨min 1 (max 0 (py.div entropy (lib.math_log labels.length))),
      le_min zero_le_one (le_max_left _ _), min_le_left _ _⟩

/-- Compare the samples at two positions, and merge their clusters if they mean the same. -/
def compare_samples (samples : List (Option String)) (entail : EntailFn) (parent : Lib.Forest)
    (pair : ℕ × ℕ) : Except Exc Lib.Forest :=
  match samples.getD pair.1 none, samples.getD pair.2 none with
  | some first, some second => do
      let forward ← entail first second
      if SAME_MEANING py ≤ forward then do
        let back ← entail second first
        if SAME_MEANING py ≤ back then .ok (parent.union pair.1 pair.2) else .ok parent
      else .ok parent
  | _, _ => .ok parent

/-- Partition the samples by meaning and score the spread. -/
def cluster_meanings (samples : List (Option String)) (entail : EntailFn) : Except Exc MeaningClusters :=
  if samples = [] then .error (.ValueError
    ("semantic entropy needs at least one sample; MEMORY_ENGINE.md 3.1 " ++
      "defines H_norm from K = 1 upward, and K = 0 would score as certain"))
  else do
    let parent ← (combinations (List.range samples.length)).foldlM (compare_samples py samples entail)
      Lib.Forest.singletons
    let labels := parent.find_all (List.range samples.length)
    .ok { labels := labels, entropy := normalised_entropy py lib labels
          minority := (List.range samples.length).filter fun i => labels.getD i 0 ≠ labels.getD 0 0 }

/-- The two numbers that scoring a candidate's confidence asks a model for. -/
def confidence_inputs (reply : List EntailmentPair → Except Exc (List UnitFloat))
    (samples : List (List ExtractedFact)) (candidate : MemoryCandidate) : Except Exc (UnitFloat × ℚ) := do
  let draws := draws_for lib samples candidate
  let claim := claim_text lib candidate
  let entail ← LLMEntailer.lookup lib reply (entail_pairs draws candidate.provenance.verbatim claim)
  let clusters ← cluster_meanings py lib draws entail
  let span_entailment ← entail candidate.provenance.verbatim claim
  .ok (clusters.entropy, span_entailment)

/-! ### Nothing is left unasked -/

variable {py lib}

theorem mem_combinations {α : Type} {xs : List α} {a b : α} :
    (a, b) ∈ combinations xs ↔ [a, b].Sublist xs := by
  induction xs with
  | nil => simp [combinations]
  | cons x xs ih =>
      simp only [combinations, List.mem_append, List.mem_map, Prod.mk.injEq, ih, List.sublist_cons_iff]
      constructor
      · rintro (⟨y, hy, rfl, rfl⟩ | h)
        · exact Or.inr ⟨[y], rfl, List.singleton_sublist.mpr hy⟩
        · exact Or.inl h
      · rintro (h | ⟨rest, hrest, hsub⟩)
        · exact Or.inr h
        · obtain ⟨rfl, rfl⟩ := List.cons.inj hrest
          exact Or.inl ⟨b, List.singleton_sublist.mp hsub, rfl, rfl⟩

theorem mem_combinations_range {n i j : ℕ} : (i, j) ∈ combinations (List.range n) ↔ i < j ∧ j < n := by
  rw [mem_combinations]
  constructor
  · intro h
    have hsorted := (List.pairwise_lt_range (n := n)).sublist h
    exact ⟨by simpa using hsorted, List.mem_range.mp (h.subset (by simp))⟩
  · rintro ⟨hij, hj⟩
    have hfirst : [i].Sublist (List.range j) := List.singleton_sublist.mpr (List.mem_range.mpr hij)
    have hboth := hfirst.append (List.Sublist.refl [j])
    rw [← List.range_succ] at hboth
    exact hboth.trans (List.range_sublist.mpr hj)

/-- The places of a list hold the list. -/
theorem map_getD_range {α : Type} (xs : List α) (x : α) :
    (List.range xs.length).map (fun i => xs.getD i x) = xs := by
  refine List.ext_getElem (by simp) fun n hn _ => ?_
  simp only [List.length_map, List.length_range] at hn
  simp [hn]

/-- Two draws that answered are asked about, in both directions. -/
theorem mem_entail_pairs {draws : List (Option String)} {verbatim claim s t : String} {i j : ℕ}
    (h : (i, j) ∈ combinations (List.range draws.length)) (hs : draws.getD i none = some s)
    (ht : draws.getD j none = some t) :
    (s, t) ∈ entail_pairs draws verbatim claim ∧ (t, s) ∈ entail_pairs draws verbatim claim := by
  have hpair := (mem_combinations.mp h).map fun i => draws.getD i none
  rw [map_getD_range, List.map_cons, List.map_cons, List.map_nil, hs, ht] at hpair
  have hasked : (s, t) ∈ combinations (draws.filterMap id) := mem_combinations.mpr (hpair.filterMap id)
  exact ⟨List.mem_cons_of_mem _ (List.mem_flatMap.mpr ⟨(s, t), hasked, by simp⟩),
    List.mem_cons_of_mem _ (List.mem_flatMap.mpr ⟨(s, t), hasked, by simp⟩)⟩

/-- What a scored question is worth. -/
def entailment (score : EntailmentPair → UnitFloat) (premise hypothesis : String) : UnitFloat :=
  if premise = hypothesis then .one else score (premise, hypothesis)

/-- A model that answers the batch answers every question in it. -/
theorem lookup_answers (score : EntailmentPair → UnitFloat) (pairs : List EntailmentPair) :
    ∃ entail, LLMEntailer.lookup lib (fun wanted => .ok (wanted.map score)) pairs = .ok entail ∧
      ∀ premise hypothesis, (premise, hypothesis) ∈ pairs →
        entail premise hypothesis = .ok (entailment score premise hypothesis).1 := by
  set wanted := pairs.eraseDups.filter fun p => p.1 ≠ p.2 with hwanted
  refine ⟨reader lib (wanted.zip (wanted.map score)), ?_, fun premise hypothesis hasked => ?_⟩
  · simp only [LLMEntailer.lookup, ← hwanted]
    split_ifs with hnil
    · rw [hnil]
      rfl
    · simp [scored_batch, bind, Except.bind]
  · unfold reader entailment
    split_ifs with hself
    · rfl
    · have hmem : (premise, hypothesis) ∈ wanted :=
        List.mem_filter.mpr ⟨List.mem_eraseDups.mpr hasked, by simpa using hself⟩
      obtain ⟨i, x, hi, hx, hfound⟩ := Lib.Table.lookup_zip (wanted.length_map score).symm hmem
      obtain rfl : score (premise, hypothesis) = x := by simpa [hi] using hx
      rw [hfound]

/-! ### The partition -/

/-- Both drew an answer, and the answers entail one another. -/
def same_meaning (py : Python) (score : EntailmentPair → UnitFloat) (draws : List (Option String))
    (pair : ℕ × ℕ) : Bool :=
  match draws.getD pair.1 none, draws.getD pair.2 none with
  | some s, some t => SAME_MEANING py ≤ (entailment score s t).1 ∧ SAME_MEANING py ≤ (entailment score t s).1
  | _, _ => false

/-- The pairs that are merged. -/
def same_pairs (py : Python) (score : EntailmentPair → UnitFloat) (draws : List (Option String)) :
    List (ℕ × ℕ) :=
  (combinations (List.range draws.length)).filter (same_meaning py score draws)

/-- Both samples assert something, and by `value` each entails the other. -/
def both_entail (py : Python) (value : String → String → ℚ) (samples : List (Option String)) (pair : ℕ × ℕ) :
    Bool :=
  match samples.getD pair.1 none, samples.getD pair.2 none with
  | some s, some t => SAME_MEANING py ≤ value s t ∧ SAME_MEANING py ≤ value t s
  | _, _ => false

variable {score : EntailmentPair → UnitFloat} {draws : List (Option String)} {entail : EntailFn}
  {value : String → String → ℚ}

theorem compare_samples_ok {parent : Lib.Forest} {pair : ℕ × ℕ}
    (h : ∀ s t, draws.getD pair.1 none = some s → draws.getD pair.2 none = some t →
      entail s t = .ok (value s t) ∧ entail t s = .ok (value t s)) :
    compare_samples py draws entail parent pair =
      .ok (if both_entail py value draws pair then parent.union pair.1 pair.2 else parent) := by
  unfold compare_samples both_entail
  cases hs : draws.getD pair.1 none with
  | none => rfl
  | some s =>
      cases ht : draws.getD pair.2 none with
      | none => rfl
      | some t =>
          obtain ⟨hforward, hback⟩ := h s t hs ht
          simp only [hforward, hback, bind, Except.bind, decide_eq_true_eq]
          split_ifs <;> simp_all

theorem foldlM_compare : ∀ (pairs : List (ℕ × ℕ)) (parent : Lib.Forest),
    (∀ pair ∈ pairs, ∀ s t, draws.getD pair.1 none = some s → draws.getD pair.2 none = some t →
      entail s t = .ok (value s t) ∧ entail t s = .ok (value t s)) →
    pairs.foldlM (compare_samples py draws entail) parent =
      .ok (parent.merge (pairs.filter (both_entail py value draws))) := by
  intro pairs
  induction pairs with
  | nil => exact fun parent _ => rfl
  | cons pair pairs ih =>
      intro parent h
      rw [List.foldlM_cons, compare_samples_ok (h pair List.mem_cons_self)]
      refine (ih _ fun p hp => h p (List.mem_cons_of_mem _ hp)).trans ?_
      rw [List.filter_cons]
      split_ifs <;> rfl

/-- The labels of a clustering. -/
def meanings (py : Python) (score : EntailmentPair → UnitFloat) (draws : List (Option String)) : List ℕ :=
  (List.range draws.length).map (Lib.Forest.singletons.merge (same_pairs py score draws)).root

theorem cluster_meanings_ok (hdraws : draws ≠ [])
    (h : ∀ pair ∈ combinations (List.range draws.length), ∀ s t, draws.getD pair.1 none = some s →
      draws.getD pair.2 none = some t →
        entail s t = .ok (entailment score s t).1 ∧ entail t s = .ok (entailment score t s).1) :
    ∃ clusters, cluster_meanings py lib draws entail = .ok clusters ∧
      clusters.labels = meanings py score draws ∧
      clusters.entropy = normalised_entropy py lib (meanings py score draws) := by
  rw [cluster_meanings, if_neg hdraws, foldlM_compare _ _ h]
  simp only [Lib.Forest.find_all_eq]
  exact ⟨_, rfl, rfl, rfl⟩

/-- CORRECT: a model that answers leaves nothing to raise: the spread of the draws and the grounding are
    scored. -/
theorem confidence_inputs_ok {samples : List (List ExtractedFact)} {candidate : MemoryCandidate}
    (hsamples : samples ≠ []) :
    confidence_inputs py lib (fun wanted => .ok (wanted.map score)) samples candidate =
      .ok (normalised_entropy py lib (meanings py score (draws_for lib samples candidate)),
        (entailment score candidate.provenance.verbatim (claim_text lib candidate)).1) := by
  obtain ⟨entail, hlookup, hanswers⟩ := @lookup_answers lib score
    (entail_pairs (draws_for lib samples candidate) candidate.provenance.verbatim (claim_text lib candidate))
  obtain ⟨clusters, hclusters, -, hentropy⟩ := @cluster_meanings_ok py lib score
    (draws_for lib samples candidate) entail (by simpa [draws_for] using hsamples) fun pair hpair s t hs ht => by
      obtain ⟨hforward, hback⟩ := @mem_entail_pairs _ candidate.provenance.verbatim
        (claim_text lib candidate) _ _ _ _ hpair hs ht
      exact ⟨hanswers s t hforward, hanswers t s hback⟩
  have hspan := hanswers candidate.provenance.verbatim (claim_text lib candidate) List.mem_cons_self
  simp only [confidence_inputs, bind_ok, Except.ok.injEq]
  exact ⟨entail, hlookup, clusters, hclusters, _, hspan, by rw [hentropy]⟩

/-! ### Labels -/

/-- Each draw is labelled with the first draw of its cluster. -/
structure Partition (k : ℕ) (labels : List ℕ) : Prop where
  length : labels.length = k
  le : ∀ i < k, labels.getD i 0 ≤ i
  named : ∀ i < k, labels.getD (labels.getD i 0) 0 = labels.getD i 0

theorem meanings_getD {i : ℕ} (hi : i < draws.length) : (meanings py score draws).getD i 0 =
    (Lib.Forest.singletons.merge (same_pairs py score draws)).root i := by
  simp [meanings, hi]

/-- CORRECT: whatever the model answers, the labels are those of a partition. -/
theorem meanings_partition (py : Python) (score : EntailmentPair → UnitFloat) (draws : List (Option String)) :
    Partition draws.length (meanings py score draws) where
  length := by simp [meanings]
  le i hi := by
    rw [meanings_getD hi]
    exact Lib.Forest.root_le i
  named i hi := by
    rw [meanings_getD hi, meanings_getD ((Lib.Forest.root_le i).trans_lt hi), Lib.Forest.root_root]

/-- CORRECT: where meaning the same is a partition, it is the one that is labelled. -/
theorem meanings_eq {labels : List ℕ} (hlabels : Partition draws.length labels)
    (h : ∀ i j, i < j → j < draws.length →
      (same_meaning py score draws (i, j) = true ↔ labels.getD i 0 = labels.getD j 0)) :
    meanings py score draws = labels := by
  refine List.ext_getElem (by simp [meanings, hlabels.length]) fun i hi hi' => ?_
  have hdraw : i < draws.length := by simpa [meanings] using hi
  have hroot : (Lib.Forest.singletons.merge (same_pairs py score draws)).root i = labels.getD i 0 := by
    refine Lib.Forest.root_merge_eq hlabels.le hlabels.named (fun p hp => ?_)
      (fun i j hij hj hsame => ?_) hdraw
    · obtain ⟨hpair, hsame⟩ := List.mem_filter.mp hp
      obtain ⟨hij, hj⟩ := mem_combinations_range.mp hpair
      exact ⟨hij.trans hj, hj, (h _ _ hij hj).mp hsame⟩
    · exact List.mem_filter.mpr ⟨mem_combinations_range.mpr ⟨hij, hj⟩, (h i j hij hj).mpr hsame⟩
  have hlabel : (meanings py score draws).getD i 0 = labels.getD i 0 := (meanings_getD hdraw).trans hroot
  simpa [hi, hi'] using hlabel

end GuardMem
