import GuardMem.Disagreement
import GuardMem.RiskFloor

/-! Whether a claim that one sample alone makes can score as certain.

    The draws of a candidate are what each sample lists first about its subject and predicate, which need
    not be the candidate's own object. CORRECT: `H_norm` is positive for a lone claim exactly unless those
    first words are all joined by mutual entailment, as they are not where the candidate is itself the
    first its sample lists (`lone_uncertain_iff`). -/

namespace GuardMem

open Lib.Entropy

/-- What rounding and the logarithms keep of the order of numbers: rounding is odd and crosses neither
    zero nor a power of two, a logarithm is negative below 1, and a sum of what is not positive is below
    each summand. -/
structure Numerics (py : Python) (lib : Stdlib) : Prop where
  round_neg : ∀ q, py.round (-q) = -py.round q
  round_nonneg : ∀ q, 0 ≤ q → 0 ≤ py.round q
  le_round : ∀ k ≤ 1000, ∀ q : ℚ, 1 / 2 ^ k ≤ q → 1 / 2 ^ k ≤ py.round q
  round_le : ∀ k ≤ 1000, ∀ q : ℚ, q ≤ 1 / 2 ^ k → py.round q ≤ 1 / 2 ^ k
  log_one : lib.np_log 1 = 0
  log_nonpos : ∀ p, 0 < p → p ≤ 1 → lib.np_log p ≤ 0
  log_half : ∀ p, 0 < p → p ≤ 1 / 2 → lib.np_log p ≤ -(1 / 2)
  log_count : ∀ n : ℕ, 2 ≤ n → 0 < lib.math_log n ∧ lib.math_log n ≤ n
  sum_zero : lib.np_sum [0] = 0
  sum_le : ∀ xs, (∀ x ∈ xs, x ≤ 0) → ∀ x ∈ xs, lib.np_sum xs ≤ x

/-- Equal as rendered, or each entails the other. -/
def MeansSame (py : Python) (lib : Stdlib) (entail : String → String → ℚ) (a b : ObjectValue) : Prop :=
  render lib a = render lib b ∨ SAME_MEANING py ≤ entail (render lib a) (render lib b) ∧
    SAME_MEANING py ≤ entail (render lib b) (render lib a)

/-- In no sample but the canonical one does a fact about the pair mean what the candidate says. -/
def Lone (py : Python) (lib : Stdlib) (entail : String → String → ℚ) (samples : List (List ExtractedFact))
    (candidate : MemoryCandidate) : Prop :=
  ∀ draw ∈ samples.tail, ∀ fact ∈ draw, fact.subject = candidate.subject →
    fact.predicate = candidate.predicate → ¬ MeansSame py lib entail fact.object candidate.object

/-- The first fact a sample lists about the candidate's subject and predicate. -/
def first_word (candidate : MemoryCandidate) (draw : List ExtractedFact) : Option ExtractedFact :=
  draw.find? fun fact => fact.subject = candidate.subject ∧ fact.predicate = candidate.predicate

/-- The first words of two samples entail each other. -/
def FirstAgree (py : Python) (lib : Stdlib) (entail : String → String → ℚ)
    (samples : List (List ExtractedFact)) (candidate : MemoryCandidate) (i j : ℕ) : Prop :=
  ∃ fact fact', samples[i]?.bind (first_word candidate) = some fact ∧
    samples[j]?.bind (first_word candidate) = some fact' ∧
    SAME_MEANING py ≤ entail (render lib fact.object) (render lib fact'.object) ∧
    SAME_MEANING py ≤ entail (render lib fact'.object) (render lib fact.object)

/-- Chains of agreement join the first words of all the samples. -/
def FirstWordsJoin (py : Python) (lib : Stdlib) (entail : String → String → ℚ)
    (samples : List (List ExtractedFact)) (candidate : MemoryCandidate) : Prop :=
  ∀ i < samples.length, ∀ j < samples.length,
    Relation.EqvGen (FirstAgree py lib entail samples candidate) i j

variable {py : Python} {lib : Stdlib} {entail : String → String → ℚ} {samples : List (List ExtractedFact)}
  {candidate : MemoryCandidate} {labels : List ℕ} {n : ℕ}

/-! ### The doubles -/

namespace Numerics

variable (h : Numerics py lib)
include h

theorem round_one : py.round 1 = 1 :=
  le_antisymm (by simpa using h.round_le 0 (by omega) 1 (by norm_num))
    (by simpa using h.le_round 0 (by omega) 1 (by norm_num))

theorem round_nonpos {q : ℚ} (hq : q ≤ 0) : py.round q ≤ 0 := by
  have hneg := h.round_nonneg (-q) (by linarith)
  rw [h.round_neg] at hneg
  linarith

/-- The share of a label is a positive double, and at most one half where half the labels are others. -/
theorem share {m n : ℕ} (hm : 0 < m) (hmn : m ≤ n) (hn : n < 2 ^ 63) :
    1 / 2 ^ 63 ≤ py.div m n ∧ py.div m n ≤ 1 ∧ (2 * m ≤ n → py.div m n ≤ 1 / 2) := by
  have hnpos : (0 : ℚ) < n := by exact_mod_cast hm.trans_le hmn
  have hone : (1 : ℚ) ≤ m := by exact_mod_cast hm
  have hbound : (n : ℚ) ≤ 2 ^ 63 := by exact_mod_cast hn.le
  refine ⟨h.le_round 63 (by omega) _ ?_, ?_, fun hhalf => ?_⟩
  · rw [div_le_div_iff₀ (by positivity) hnpos]
    nlinarith
  · have hle := h.round_le 0 (by omega) ((m : ℚ) / n) ?_
    · simpa [Python.div] using hle
    · rw [pow_zero, div_one]
      exact div_le_one_of_le₀ (by exact_mod_cast hmn) hnpos.le
  · have hle := h.round_le 1 (by omega) ((m : ℚ) / n) ?_
    · simpa [Python.div] using hle
    · rw [pow_one, div_le_div_iff₀ hnpos (by norm_num)]
      have hcast : (2 : ℚ) * m ≤ n := by exact_mod_cast hhalf
      linarith

/-- One label: the probability is 1 and nothing is left. -/
theorem one_label {label : ℕ} (hn : 1 ≤ n) :
    py.arithmetic.h_norm lib.logarithms (List.replicate n label) = 0 := by
  rw [Arithmetic.h_norm]
  split_ifs with hone
  · rfl
  · have hdups : (List.replicate n label).eraseDups = [label] := by
      obtain ⟨k, rfl⟩ := Nat.exists_eq_succ_of_ne_zero (by omega : n ≠ 0)
      rw [List.replicate_succ, List.eraseDups_cons]
      simp
    have hshare : py.arithmetic.div (n : ℚ) n = 1 := by
      have hself : (n : ℚ) / n = 1 := div_self (by exact_mod_cast (by omega : n ≠ 0))
      rw [Arithmetic.div, hself]
      exact h.round_one
    have hterm : py.arithmetic.mul 1 (lib.np_log 1) = 0 := by
      rw [h.log_one, Arithmetic.mul, mul_zero]
      exact py.round_zero
    simp only [hdups, List.map_cons, List.map_nil, List.count_replicate_self, List.length_replicate, hshare]
    rw [show lib.logarithms.np_log = lib.np_log from rfl, hterm,
      show lib.logarithms.np_sum = lib.np_sum from rfl, h.sum_zero, neg_zero, Arithmetic.div, zero_div]
    exact py.round_zero

/-- What a label with half of the others against it brings to the sum. -/
theorem term_lt {m n : ℕ} (hm : 0 < m) (hmn : 2 * m ≤ n) (hn : n < 2 ^ 63) :
    py.mul (py.div m n) (lib.np_log (py.div m n)) ≤ -(1 / 2 ^ 64) := by
  obtain ⟨hlow, -, hhalf⟩ := h.share hm (by omega : m ≤ n) hn
  have hpos : 0 < py.div m n := lt_of_lt_of_le (by positivity) hlow
  have hlog := h.log_half _ hpos (hhalf hmn)
  have hround := h.le_round 64 (by omega) (-(py.div m n * lib.np_log (py.div m n))) (by nlinarith)
  rw [h.round_neg] at hround
  exact le_neg.mpr hround

theorem term_nonpos {m n : ℕ} (hm : 0 < m) (hmn : m ≤ n) (hn : n < 2 ^ 63) :
    py.mul (py.div m n) (lib.np_log (py.div m n)) ≤ 0 := by
  obtain ⟨hlow, hle, -⟩ := h.share hm hmn hn
  have hpos : 0 < py.div m n := lt_of_lt_of_le (by positivity) hlow
  exact h.round_nonpos (mul_nonpos_of_nonneg_of_nonpos hpos.le (h.log_nonpos _ hpos hle))

/-- Two labels: one of them has half of the samples against it. -/
theorem two_labels (hn : labels.length < 2 ^ 63) {label : ℕ} (hmem : label ∈ labels)
    (hminor : 2 * labels.count label ≤ labels.length) : 0 < py.arithmetic.h_norm lib.logarithms labels := by
  have hcount : ∀ a ∈ labels, 0 < labels.count a ∧ labels.count a ≤ labels.length := fun a ha =>
    ⟨List.count_pos_iff.mpr ha, List.count_le_length⟩
  have htwo : 2 ≤ labels.length := by
    have hpos := (hcount label hmem).1
    omega
  set terms := (labels.eraseDups.map fun a => py.div (labels.count a) labels.length).map
    fun p => py.mul p (lib.np_log p) with hterms
  have hnonpos : ∀ x ∈ terms, x ≤ 0 := by
    intro x hx
    obtain ⟨p, hp, rfl⟩ := List.mem_map.mp hx
    obtain ⟨a, ha, rfl⟩ := List.mem_map.mp hp
    obtain ⟨hpos, hle⟩ := hcount a (List.mem_eraseDups.mp ha)
    exact h.term_nonpos hpos hle hn
  have hsum : lib.np_sum terms ≤ -(1 / 2 ^ 64) :=
    (h.sum_le terms hnonpos _ (List.mem_map_of_mem (List.mem_map_of_mem (List.mem_eraseDups.mpr hmem)))).trans
      (h.term_lt (hcount label hmem).1 hminor hn)
  obtain ⟨hlogpos, hlogle⟩ := h.log_count labels.length htwo
  have hbound : (labels.length : ℚ) ≤ 2 ^ 63 := by exact_mod_cast hn.le
  have hquotient : 1 / 2 ^ 127 ≤ -lib.np_sum terms / lib.math_log labels.length := by
    rw [div_le_div_iff₀ (by positivity) hlogpos]
    nlinarith
  have hround := h.le_round 127 (by omega) _ hquotient
  rw [Arithmetic.h_norm, if_neg (by omega)]
  exact lt_of_lt_of_le (by positivity) hround

end Numerics

theorem count_add_count {a b : ℕ} (hab : a ≠ b) : ∀ labels : List ℕ,
    labels.count a + labels.count b ≤ labels.length
  | [] => by simp
  | c :: labels => by
      have hrest := count_add_count hab labels
      rw [List.count_cons, List.count_cons, List.length_cons]
      rcases eq_or_ne c a with rfl | hca
      · rw [if_pos (by simp), if_neg (by simpa using hab)]
        omega
      · rw [if_neg (by simpa using hca)]
        split_ifs <;> omega

/-- CORRECT: in doubles, the clamped entropy of a labelling is positive where two labels differ. -/
theorem normalised_entropy_pos (h : Numerics py lib) (hn : 2 ≤ n) (hmax : n < 2 ^ 63) (label : ℕ → ℕ) :
    0 < (normalised_entropy py lib ((List.range n).map label)).1 ↔ ¬ ∀ i < n, ∀ j < n, label j = label i := by
  have hlength : ((List.range n).map label).length = n := by simp
  have hmem : ∀ i < n, label i ∈ (List.range n).map label := fun i hi =>
    List.mem_map_of_mem (List.mem_range.mpr hi)
  rw [normalised_entropy_floats, lt_min_iff, lt_max_iff, or_iff_right (lt_irrefl 0),
    and_iff_right zero_lt_one]
  constructor
  · intro hpos hall
    have hsame : (List.range n).map label = List.replicate n (label 0) := by
      refine List.eq_replicate_iff.mpr ⟨hlength, fun a ha => ?_⟩
      obtain ⟨i, hi, rfl⟩ := List.mem_map.mp ha
      exact hall 0 (by omega) i (List.mem_range.mp hi)
    rw [hsame, h.one_label (by omega)] at hpos
    exact lt_irrefl 0 hpos
  · intro hdiffer
    push Not at hdiffer
    obtain ⟨i, hi, j, hj, hij⟩ := hdiffer
    have hboth := count_add_count hij ((List.range n).map label)
    rcases le_total (((List.range n).map label).count (label j)) (((List.range n).map label).count (label i))
      with hle | hle
    · exact h.two_labels (by omega) (hmem j hj) (by omega)
    · exact h.two_labels (by omega) (hmem i hi) (by omega)

/-! ### What the draws are -/

theorem draws_get {i : ℕ} {s : String} : (draws_for lib samples candidate)[i]? = some (some s) ↔
    ∃ fact, samples[i]?.bind (first_word candidate) = some fact ∧ render lib fact.object = s := by
  have hfirst : ∀ draw, first_object lib candidate draw =
      (first_word candidate draw).map fun fact => render lib fact.object := fun _ => rfl
  rw [draws_for, List.getElem?_map]
  cases samples[i]? with
  | none => simp
  | some draw => simp [hfirst]

theorem draws_same {i j : ℕ} : SameMeaning py entail (draws_for lib samples candidate) i j ↔
    FirstAgree py lib entail samples candidate i j := by
  unfold SameMeaning FirstAgree
  simp only [draws_get]
  constructor
  · rintro ⟨s, t, ⟨fact, hfact, rfl⟩, ⟨fact', hfact', rfl⟩, hforward, hback⟩
    exact ⟨fact, fact', hfact, hfact', hforward, hback⟩
  · rintro ⟨fact, fact', hfact, hfact', hforward, hback⟩
    exact ⟨_, _, ⟨fact, hfact, rfl⟩, ⟨fact', hfact', rfl⟩, hforward, hback⟩

theorem draws_connected : (∀ i < samples.length, ∀ j < samples.length,
      Connected py entail (draws_for lib samples candidate) i j) ↔
    FirstWordsJoin py lib entail samples candidate := by
  have hlinks : SameMeaning py entail (draws_for lib samples candidate) =
      FirstAgree py lib entail samples candidate := funext₂ fun i j => propext draws_same
  unfold FirstWordsJoin Connected
  rw [hlinks]

/-- A lone claim that is the first word of its own sample is joined with no other. -/
theorem first_listed_alone {canonical : List ExtractedFact} {rest : List (List ExtractedFact)}
    {fact : ExtractedFact} (hfirst : first_word candidate canonical = some fact)
    (hstated : fact.object = candidate.object) (hrest : rest ≠ [])
    (hlone : Lone py lib entail (canonical :: rest) candidate) :
    ¬ FirstWordsJoin py lib entail (canonical :: rest) candidate := by
  intro hjoin
  have hrest' : 0 < rest.length := List.length_pos_iff.mpr hrest
  have halone : ∀ j, ¬ FirstAgree py lib entail (canonical :: rest) candidate 0 (j + 1) := by
    rintro j ⟨fact', other, hfact', hother, hforward, hback⟩
    obtain rfl : fact = fact' := Option.some.inj (hfirst.symm.trans hfact')
    rw [List.getElem?_cons_succ] at hother
    obtain ⟨draw, hdraw, hword⟩ := Option.bind_eq_some_iff.mp hother
    have habout := List.find?_some hword
    rw [decide_eq_true_eq] at habout
    refine hlone draw (List.mem_of_getElem? hdraw) other (List.mem_of_find?_eq_some hword) habout.1 habout.2 ?_
    rw [hstated] at hforward hback
    exact Or.inr ⟨hback, hforward⟩
  have hone : 1 = 0 := Lib.Forest.eqvGen_alone (fun k hk => ?_)
    (hjoin 0 (Nat.succ_pos _) 1 (Nat.succ_lt_succ hrest'))
  · omega
  · rcases k with _ | k
    · rfl
    · rcases hk with hlink | ⟨fact', other, hfact', hother, hforward, hback⟩
      · exact absurd hlink (halone k)
      · exact absurd ⟨other, fact', hother, hfact', hback, hforward⟩ (halone k)

/-- CORRECT: `H_norm` is positive for a lone claim exactly unless the first words of all the samples on
    its pair are joined: over the reals, and in doubles for as many samples as a list can hold. They are
    not joined where the candidate is the first of them in its own sample. -/
theorem lone_uncertain_iff (py : Python) (lib : Stdlib) (entail : String → String → ℚ)
    (samples : List (List ExtractedFact)) (candidate : MemoryCandidate) (hK : 2 ≤ samples.length) :
    ∃ clusters, cluster_meanings py lib (draws_for lib samples candidate) (fun s t => .ok (entail s t)) =
        .ok clusters ∧
      ((Lone py lib entail samples candidate → 0 < disagreement clusters.labels) ↔
        ¬ (Lone py lib entail samples candidate ∧ FirstWordsJoin py lib entail samples candidate)) ∧
      (Numerics py lib → samples.length < 2 ^ 63 →
        ((Lone py lib entail samples candidate → 0 < clusters.entropy.1) ↔
          ¬ (Lone py lib entail samples candidate ∧ FirstWordsJoin py lib entail samples candidate))) ∧
      ∀ canonical ∈ samples.head?, ∀ fact ∈ first_word candidate canonical,
        fact.object = candidate.object →
          ¬ (Lone py lib entail samples candidate ∧ FirstWordsJoin py lib entail samples candidate) := by
  have hdraws : (draws_for lib samples candidate).length = samples.length := List.length_map _
  have hnonempty : draws_for lib samples candidate ≠ [] := by
    intro hnil
    rw [hnil, List.length_nil] at hdraws
    omega
  have hjoin : (∀ i < samples.length, ∀ j < samples.length,
      component py entail (draws_for lib samples candidate) j =
        component py entail (draws_for lib samples candidate) i) ↔
      FirstWordsJoin py lib entail samples candidate := by
    rw [← draws_connected]
    simp only [component_eq]
    exact ⟨fun h i hi j hj => h j hj i hi, fun h i hi j hj => h j hj i hi⟩
  obtain ⟨clusters, hclusters, hlabels, hentropy⟩ := @clustered py lib entail _ hnonempty
  rw [hdraws] at hlabels
  refine ⟨clusters, hclusters, ?_, fun h hmax => ?_, ?_⟩
  · have hzero := disagreement_zero hK (component py entail (draws_for lib samples candidate))
    have hunit := (disagreement_unit hK (component py entail (draws_for lib samples candidate))).1
    rw [hlabels, hunit.lt_iff_ne', Ne, not_and]
    exact imp_congr_right fun _ => not_congr (hzero.trans hjoin)
  · have hpos := normalised_entropy_pos h hK hmax (component py entail (draws_for lib samples candidate))
    rw [hentropy, hlabels, not_and]
    exact imp_congr_right fun _ => hpos.trans (not_congr hjoin)
  · rintro canonical hcanonical fact hfact hstated ⟨hlone, hall⟩
    rcases samples with _ | ⟨draw, rest⟩
    · simp at hK
    · obtain rfl := Option.mem_some_iff.mp hcanonical
      refine first_listed_alone hfact hstated ?_ hlone hall
      rintro rfl
      simp at hK

namespace Clinical

/-- What is said of an allergy. -/
def allergic (object : String) : ExtractedFact :=
  ⟨"the patient", "allergy", .str object, "", verbatim_empty⟩

def allergy (object : String) : MemoryCandidate :=
  { language "trace" "2" object 0 with predicate := "allergy" }

/-- One sample lists two allergies, the others the first of them. -/
def listed_allergies : List (List ExtractedFact) :=
  [[allergic "penicillin", allergic "amoxicillin"], [allergic "penicillin"], [allergic "penicillin"]]

/-- Two samples that list one allergy each. -/
def disputed_allergies : List (List ExtractedFact) := [[allergic "penicillin"], [allergic "latex"]]

/-- Two draws are scored with no rounding at all. -/
def exact_python : Python := { python with round := id, round_zero := rfl }

/-- The logarithms that two draws and three take. -/
def few_draws : Stdlib where
  dumps _ := ""
  repr s := "'" ++ s ++ "'"
  math_log n := if n = 2 then 6931471805599453 / 10 ^ 16 else if n = 3 then 10986122886681098 / 10 ^ 16 else n / 2
  np_log p := if p = 1 / 2 then -(6931471805599453 / 10 ^ 16) else p - 1
  np_sum := List.sum

theorem sum_le : ∀ xs : List ℚ, (∀ x ∈ xs, x ≤ 0) → ∀ x ∈ xs, xs.sum ≤ x
  | y :: ys, h, x, hx => by
      have hy := h y List.mem_cons_self
      have hys : ∀ z ∈ ys, z ≤ 0 := fun z hz => h z (List.mem_cons_of_mem y hz)
      rw [List.sum_cons]
      rcases List.mem_cons.mp hx with rfl | hx
      · have hsum : ys.sum ≤ 0 := by simpa using List.sum_le_card_nsmul ys 0 hys
        linarith
      · have hrest := sum_le ys hys x hx
        linarith

theorem few_draws_numerics : Numerics exact_python few_draws where
  round_neg _ := rfl
  round_nonneg _ h := h
  le_round _ _ _ h := h
  round_le _ _ _ h := h
  log_one := by norm_num [few_draws]
  log_nonpos p _ hp := by
    simp only [few_draws]
    split_ifs <;> linarith
  log_half p _ hp := by
    simp only [few_draws]
    split_ifs
    · norm_num
    · linarith
  log_count n hn := by
    have hcast : (2 : ℚ) ≤ n := by exact_mod_cast hn
    simp only [few_draws]
    split_ifs with htwo hthree
    · rw [htwo]
      norm_num
    · rw [hthree]
      norm_num
    · constructor <;> linarith
  sum_zero := by norm_num [few_draws]
  sum_le := sum_le

theorem listed_entropy : (cluster_meanings python few_draws
    (draws_for few_draws listed_allergies (allergy "amoxicillin")) fun s t => .ok (literal s t)).map
      (fun clusters => clusters.entropy.1) = .ok 0 := by decide +kernel

end Clinical

open Clinical in
/-- A lone claim that stands first in its sample is not certain. -/
theorem disputed_uncertain : ∃ clusters,
    cluster_meanings exact_python few_draws (draws_for few_draws disputed_allergies (allergy "penicillin"))
      (fun s t => .ok (literal s t)) = .ok clusters ∧ 0 < clusters.entropy.1 := by
  obtain ⟨clusters, hclusters, -, hdoubles, hfirst⟩ :=
    lone_uncertain_iff exact_python few_draws literal disputed_allergies (allergy "penicillin") (by decide)
  have hlone : Lone exact_python few_draws literal disputed_allergies (allergy "penicillin") := by
    intro draw hdraw fact hfact _ _ hsame
    obtain rfl := List.mem_singleton.mp hdraw
    obtain rfl := List.mem_singleton.mp hfact
    have hdiffer : ¬ ("latex" = "penicillin" ∨ SAME_MEANING exact_python ≤ literal "latex" "penicillin" ∧
        SAME_MEANING exact_python ≤ literal "penicillin" "latex") := by decide +kernel
    exact hdiffer hsame
  exact ⟨clusters, hclusters, (hdoubles few_draws_numerics (by decide)).mpr
    (hfirst _ rfl (allergic "penicillin") (by decide) rfl) hlone⟩

open Clinical in
/-- The second allergy of a list is admitted, no other sample mentions it, and it scores as certain. -/
theorem lone_certain : 2 ≤ listed_allergies.length ∧
    (∃ v ∈ (gate python Clinical.deps.casefold [allergy "amoxicillin"] allergy_pack).admitted,
      v.candidate = allergy "amoxicillin") ∧
    Lone python few_draws literal listed_allergies (allergy "amoxicillin") ∧
    ∃ clusters, cluster_meanings python few_draws (draws_for few_draws listed_allergies (allergy "amoxicillin"))
      (fun s t => .ok (literal s t)) = .ok clusters ∧ clusters.entropy.1 = 0 := by
  refine ⟨by decide, ⟨_, List.mem_singleton_self _, rfl⟩, ?_, ?_⟩
  · intro draw hdraw fact hfact _ _ hsame
    have hdiffer : ¬ ("penicillin" = "amoxicillin" ∨ SAME_MEANING python ≤ literal "penicillin" "amoxicillin" ∧
        SAME_MEANING python ≤ literal "amoxicillin" "penicillin") := by decide +kernel
    rcases List.mem_cons.mp hdraw with rfl | hdraw
    · obtain rfl := List.mem_singleton.mp hfact
      exact hdiffer hsame
    · obtain rfl := List.mem_singleton.mp hdraw
      obtain rfl := List.mem_singleton.mp hfact
      exact hdiffer hsame
  · have hentropy := listed_entropy
    cases hclusters : cluster_meanings python few_draws
        (draws_for few_draws listed_allergies (allergy "amoxicillin")) fun s t => .ok (literal s t) with
    | error exc => simp [hclusters, Except.map] at hentropy
    | ok clusters =>
        rw [hclusters] at hentropy
        exact ⟨clusters, rfl, Except.ok.inj hentropy⟩

end GuardMem
