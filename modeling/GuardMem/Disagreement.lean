import GuardMem.Components
import GuardMem.Lib.Entropy
import GuardMem.Pipeline.Arithmetic
import Mathlib.Analysis.SpecialFunctions.Log.Monotone

/-! What `H_norm` measures, over the reals and before the clamp.

    The labels of a clustering are a labelling of the samples, so their normalised entropy is the library's
    over the logarithm of their number (`h_norm_eq`). CORRECT: it is between 0 and 1, 0 where the samples
    are one cluster and 1 where no two share one, links that only join clusters never raise it, and
    support lowers it (`disagreement_measured`). -/

namespace GuardMem

open Lib.Forest Lib.Entropy

/-- `math.log`, and `np.log` and `sum` over an array, of any numbers. -/
structure Logarithms (K : Type) where
  math_log : K → K
  np_log : K → K
  np_sum : List K → K

def Stdlib.logarithms (lib : Stdlib) : Logarithms ℚ := ⟨lib.math_log, lib.np_log, lib.np_sum⟩

/-- The reals: both logarithms are natural, and a sum is a sum. -/
noncomputable def exact_logarithms : Logarithms ℝ := ⟨Real.log, Real.log, List.sum⟩

/-- `H / log K` as it stands before the clamp. -/
def Arithmetic.h_norm {K : Type} [Field K] [LinearOrder K] (A : Arithmetic K) (L : Logarithms K)
    (labels : List ℕ) : K :=
  if labels.length = 1 then 0
  else
    let probabilities := labels.eraseDups.map fun label => A.div (labels.count label) labels.length
    let entropy := -L.np_sum (probabilities.map fun p => A.mul p (L.np_log p))
    A.div entropy (L.math_log labels.length)

/-- CORRECT: at the doubles, clamped, it is the code's. -/
theorem normalised_entropy_floats (py : Python) (lib : Stdlib) (labels : List ℕ) :
    (normalised_entropy py lib labels).1 = min 1 (max 0 (py.arithmetic.h_norm lib.logarithms labels)) := by
  unfold normalised_entropy Arithmetic.h_norm
  split_ifs
  · rw [max_self, min_eq_right zero_le_one]
    rfl
  · rfl

/-- `m` of the samples answer, all of them the same, and the others abstain. -/
structure Agreeing (py : Python) (entail : String → String → ℚ) (samples : List (Option String)) (m : ℕ) :
    Prop where
  answered : samples.countP Option.isSome = m
  agree : ∀ i j, i ≠ j → (∃ s, samples[i]? = some (some s)) → (∃ t, samples[j]? = some (some t)) →
    SameMeaning py entail samples i j

/-- `H_norm` of the labels, over the reals. -/
noncomputable def disagreement (labels : List ℕ) : ℝ := exact.h_norm exact_logarithms labels

variable {py : Python} {lib : Stdlib} {entail entail' : String → String → ℚ}
  {samples samples' : List (Option String)} {i j m m' : ℕ}

/-! ### The entropy of a labelling -/

theorem sum_neg (g : ℕ → ℝ) : ∀ l : List ℕ, -(l.map g).sum = (l.map fun a => -g a).sum
  | [] => by simp
  | a :: l => by simp only [List.map_cons, List.sum_cons, neg_add, sum_neg g l]

theorem disagreement_eq {n : ℕ} (hn : 2 ≤ n) (label : ℕ → ℕ) : disagreement ((List.range n).map label) =
    entropy label (List.range n) / Real.log n := by
  have hlength : ((List.range n).map label).length = n := by simp
  have hone : ((List.range n).map label).length ≠ 1 := by omega
  rw [disagreement, Arithmetic.h_norm, if_neg hone, entropy, List.length_range, hlength]
  simp only [List.map_map, exact_logarithms, Arithmetic.div, Arithmetic.mul, exact, id]
  rw [sum_neg, ((eraseDups_perm _).map _).sum_eq]
  refine congrArg (· / Real.log n) (congrArg List.sum (List.map_congr_left fun b _ => ?_))
  rw [Function.comp_apply, Real.negMulLog, neg_mul]

theorem log_pos_of_two {n : ℕ} (hn : 2 ≤ n) : 0 < Real.log n := Real.log_pos (by exact_mod_cast hn)

theorem disagreement_unit {n : ℕ} (hn : 2 ≤ n) (label : ℕ → ℕ) :
    0 ≤ disagreement ((List.range n).map label) ∧ disagreement ((List.range n).map label) ≤ 1 := by
  have hle := entropy_le_log label (List.range n)
  rw [List.length_range] at hle
  rw [disagreement_eq hn]
  exact ⟨div_nonneg (entropy_nonneg label _) (log_pos_of_two hn).le,
    div_le_one_of_le₀ hle (log_pos_of_two hn).le⟩

theorem disagreement_zero {n : ℕ} (hn : 2 ≤ n) (label : ℕ → ℕ) :
    disagreement ((List.range n).map label) = 0 ↔ ∀ i < n, ∀ j < n, label j = label i := by
  rw [disagreement_eq hn, div_eq_zero_iff, or_iff_left (log_pos_of_two hn).ne', entropy_eq_zero]
  simp only [List.mem_range]

theorem disagreement_one {n : ℕ} (hn : 2 ≤ n) (label : ℕ → ℕ) :
    disagreement ((List.range n).map label) = 1 ↔ ∀ i < n, ∀ j < n, label i = label j → i = j := by
  have hlog := @entropy_eq_log _ _ _ label (List.range n)
  rw [List.length_range, List.nodup_map_iff_inj_on List.nodup_range] at hlog
  rw [disagreement_eq hn, div_eq_one_iff_eq (log_pos_of_two hn).ne', hlog]
  simp only [List.mem_range]

/-! ### The labels of a clustering -/

/-- The least index of the component of each sample. -/
def component (py : Python) (entail : String → String → ℚ) (samples : List (Option String)) : ℕ → ℕ :=
  (singletons.merge ((combinations (List.range samples.length)).filter (both_entail py entail samples))).root

theorem component_eq : component py entail samples i = component py entail samples j ↔
    Connected py entail samples i j :=
  merged_classes (combinations_visits samples.length) i j

theorem clustered (hsamples : samples ≠ []) : ∃ clusters,
    cluster_meanings py lib samples (fun s t => .ok (entail s t)) = .ok clusters ∧
      clusters.labels = (List.range samples.length).map (component py entail samples) ∧
      clusters.entropy = normalised_entropy py lib clusters.labels :=
  ⟨_, cluster_in_order_eq hsamples, rfl, rfl⟩

/-! ### Support -/

/-- The sample at this place asserts something. -/
def answered (samples : List (Option String)) (i : ℕ) : Bool := (samples.getD i none).isSome

theorem answered_iff : answered samples i = true ↔ ∃ s, samples[i]? = some (some s) := by
  rw [answered, List.getD_eq_getElem?_getD]
  rcases samples[i]? with _ | _ | s <;> simp

theorem countP_answered (samples : List (Option String)) :
    (List.range samples.length).countP (answered samples) = samples.countP Option.isSome := by
  calc (List.range samples.length).countP (answered samples)
      = ((List.range samples.length).map fun i => samples.getD i none).countP Option.isSome := by
        rw [List.countP_map]
        rfl
    _ = samples.countP Option.isSome := by rw [map_getD_range]

/-- An abstention is alone. -/
theorem unanswered_alone (h : answered samples i = false) (hij : Connected py entail samples i j) : j = i := by
  refine Connected.eq_of_unlinked (fun k hlink => ?_) hij
  obtain ⟨s, -, hs, -⟩ := hlink
  rw [answered_iff.mpr ⟨s, hs⟩] at h
  cases h

/-- Whoever answers shares a cluster with all who answer, and whoever abstains with nobody. -/
theorem agreeing_size (h : Agreeing py entail samples m) (hi : i < samples.length) :
    size (component py entail samples) (List.range samples.length) i =
      if answered samples i then m else 1 := by
  cases hanswered : answered samples i with
  | true =>
      rw [if_pos rfl, ← h.answered, ← countP_answered]
      refine List.countP_congr fun j hj => ?_
      rw [decide_eq_true_eq, component_eq]
      constructor
      · intro hji
        by_contra hj'
        obtain rfl := unanswered_alone (Bool.eq_false_of_not_eq_true hj') hji
        exact hj' hanswered
      · intro hj'
        rcases eq_or_ne j i with rfl | hne
        · exact .refl j
        · exact .rel _ _ (h.agree j i hne (answered_iff.mp hj') (answered_iff.mp hanswered))
  | false =>
      have hself : size (component py entail samples) (List.range samples.length) i =
          (List.range samples.length).count i := by
        rw [List.count_eq_countP]
        refine List.countP_congr fun j hj => ?_
        rw [decide_eq_true_eq, component_eq, beq_iff_eq]
        constructor
        · intro hji
          exact unanswered_alone hanswered hji.symm
        · rintro rfl
          exact .refl j
      rw [hself, if_neg Bool.false_ne_true]
      exact List.count_eq_one_of_mem List.nodup_range (List.mem_range.mpr hi)

theorem sum_of_answered (p : ℕ → Bool) (c : ℝ) : ∀ s : List ℕ,
    (s.map fun i => if p i then c else 0).sum = s.countP p * c
  | [] => by simp
  | i :: s => by
      rw [List.map_cons, List.sum_cons, sum_of_answered p c s, List.countP_cons]
      split_ifs <;> push_cast <;> ring

/-- What `m` agreeing samples leave of the disagreement. -/
theorem disagreement_agreeing (h : Agreeing py entail samples m) (hK : 2 ≤ samples.length) :
    disagreement ((List.range samples.length).map (component py entail samples)) =
      1 - m * Real.log m / (samples.length * Real.log samples.length) := by
  have hnonempty : List.range samples.length ≠ [] := by
    intro hnil
    have hlength := congrArg List.length hnil
    rw [List.length_range, List.length_nil] at hlength
    omega
  have hsizes : ((List.range samples.length).map fun i =>
      Real.log (size (component py entail samples) (List.range samples.length) i)) =
        (List.range samples.length).map fun i => if answered samples i then Real.log m else 0 := by
    refine List.map_congr_left fun i hi => ?_
    rw [agreeing_size h (List.mem_range.mp hi)]
    split_ifs <;> simp
  have hlength : (samples.length : ℝ) ≠ 0 := by
    have hpos : samples.length ≠ 0 := by omega
    exact_mod_cast hpos
  have hlog := (log_pos_of_two hK).ne'
  rw [disagreement_eq hK, entropy_eq hnonempty, hsizes, sum_of_answered, countP_answered, h.answered,
    List.length_range]
  field_simp

/-- `m log m` is strictly increasing from 1 on. -/
theorem mul_log_lt (hm : 1 ≤ m) (hlt : m < m') : m * Real.log m < m' * Real.log m' := by
  have hleast : Real.exp (-1) ≤ 1 := Real.exp_le_one_iff.mpr (by norm_num)
  have hone : (1 : ℝ) ≤ m := by exact_mod_cast hm
  have hless : (m : ℝ) < m' := by exact_mod_cast hlt
  exact Real.mul_log_strictMonoOn (hleast.trans hone) ((hleast.trans hone).trans hless.le) hless

/-! ### What it measures -/

/-- CORRECT: `H_norm` is in the unit interval, 0 where the samples are one cluster and 1 where no two
    share one. Links that join more samples never raise it, and the more samples agree, the others
    abstaining, the lower it is. -/
theorem disagreement_measured (py : Python) (lib : Stdlib) (samples : List (Option String))
    (entail : String → String → ℚ) (hK : 2 ≤ samples.length) :
    ∃ clusters, cluster_meanings py lib samples (fun s t => .ok (entail s t)) = .ok clusters ∧
      (0 ≤ disagreement clusters.labels ∧ disagreement clusters.labels ≤ 1) ∧
      (disagreement clusters.labels = 0 ↔
        ∀ i < samples.length, ∀ j < samples.length, Connected py entail samples i j) ∧
      (disagreement clusters.labels = 1 ↔
        ∀ i < samples.length, ∀ j < samples.length, Connected py entail samples i j → i = j) ∧
      ∀ (samples' : List (Option String)) (entail' : String → String → ℚ) (clusters' : MeaningClusters),
        samples'.length = samples.length →
        cluster_meanings py lib samples' (fun s t => .ok (entail' s t)) = .ok clusters' →
          ((∀ i j, SameMeaning py entail samples i j → SameMeaning py entail' samples' i j) →
            disagreement clusters'.labels ≤ disagreement clusters.labels) ∧
          ∀ m m', 1 ≤ m → m < m' → Agreeing py entail samples m → Agreeing py entail' samples' m' →
            disagreement clusters'.labels < disagreement clusters.labels := by
  have hnonempty : ∀ {samples : List (Option String)}, 2 ≤ samples.length → samples ≠ [] := by
    rintro samples hlength rfl
    simp at hlength
  obtain ⟨clusters, hclusters, hlabels, -⟩ := @clustered py lib entail samples (hnonempty hK)
  refine ⟨clusters, hclusters, ?_, ?_, ?_, fun samples' entail' clusters' hsame hclusters' => ?_⟩
  · rw [hlabels]
    exact disagreement_unit hK _
  · rw [hlabels, disagreement_zero hK]
    simp only [component_eq]
    exact ⟨fun h i hi j hj => h j hj i hi, fun h i hi j hj => h j hj i hi⟩
  · rw [hlabels, disagreement_one hK]
    simp only [component_eq]
  · obtain ⟨found, hfound, hlabels', -⟩ := @clustered py lib entail' samples' (hnonempty (hsame ▸ hK))
    obtain rfl := Except.ok.inj (hfound.symm.trans hclusters')
    have hK' : 2 ≤ samples'.length := hsame ▸ hK
    refine ⟨fun hlinks => ?_, fun m m' hm hlt h h' => ?_⟩
    · rw [hlabels, hlabels', hsame, disagreement_eq hK, disagreement_eq hK]
      have hgrow : ∀ i ∈ List.range samples.length,
          size (component py entail samples) (List.range samples.length) i ≤
            size (component py entail' samples') (List.range samples.length) i := fun i _ =>
        size_mono fun j _ hj => component_eq.mpr ((component_eq.mp hj).mono hlinks)
      exact div_le_div_of_nonneg_right (entropy_anti hgrow) (log_pos_of_two hK).le
    · rw [hlabels, hlabels', disagreement_agreeing h hK, disagreement_agreeing h' hK', hsame]
      have hdenominator : 0 < samples.length * Real.log samples.length := by
        have hlog := log_pos_of_two hK
        have hpos : (0 : ℝ) < samples.length := by exact_mod_cast (by omega : 0 < samples.length)
        positivity
      have hterm := div_lt_div_of_pos_right (mul_log_lt hm hlt) hdenominator
      linarith

namespace Clinical

/-- Five draws of which `m` say penicillin and the others nothing. -/
def penicillin_draws (m : ℕ) : List (Option String) :=
  List.replicate m (some "penicillin") ++ List.replicate (5 - m) none

/-- A text entails itself and nothing else. -/
def literal (premise hypothesis : String) : ℚ := if premise = hypothesis then 1 else 0

theorem penicillin_agreeing (m : ℕ) : Agreeing python literal (penicillin_draws m) m where
  answered := by simp [penicillin_draws, List.countP_replicate]
  agree := by
    have hcut : SAME_MEANING python ≤ 1 := by decide +kernel
    have hspoken : ∀ (k : ℕ) (s : String), (penicillin_draws m)[k]? = some (some s) → s = "penicillin" := by
      intro k s hs
      rcases List.mem_append.mp (List.mem_of_getElem? hs) with hmem | hmem
      · exact Option.some.inj (List.eq_of_mem_replicate hmem)
      · cases List.eq_of_mem_replicate hmem
    intro i j _ hi hj
    obtain ⟨s, hs⟩ := hi
    obtain ⟨t, ht⟩ := hj
    obtain rfl := hspoken i s hs
    obtain rfl := hspoken j t ht
    exact ⟨_, _, hs, ht, by simpa [literal] using hcut, by simpa [literal] using hcut⟩

end Clinical

open Clinical in
/-- Three draws of five that agree leave less disagreement than one. -/
theorem support_counts : ∃ one three : MeaningClusters,
    cluster_meanings python five_draws (penicillin_draws 1) (fun s t => .ok (literal s t)) = .ok one ∧
      cluster_meanings python five_draws (penicillin_draws 3) (fun s t => .ok (literal s t)) = .ok three ∧
      disagreement three.labels < disagreement one.labels ∧ disagreement one.labels ≤ 1 := by
  have hlength : ∀ m ≤ 5, (penicillin_draws m).length = 5 := by
    intro m hm
    simp only [penicillin_draws, List.length_append, List.length_replicate]
    omega
  have hone := hlength 1 (by omega)
  have hthree := hlength 3 (by omega)
  obtain ⟨three, hclusters', -⟩ :=
    disagreement_measured python five_draws (penicillin_draws 3) literal (by omega)
  obtain ⟨one, hclusters, ⟨-, hle⟩, -, -, hmore⟩ :=
    disagreement_measured python five_draws (penicillin_draws 1) literal (by omega)
  have hless := (hmore _ literal three (hthree.trans hone.symm) hclusters').2 1 3 le_rfl (by omega)
    (penicillin_agreeing 1) (penicillin_agreeing 3)
  exact ⟨one, three, hclusters, hclusters', hless, hle⟩

end GuardMem
