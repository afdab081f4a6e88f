import GuardMem.Clinical
import GuardMem.Pipeline.Entropy

/-! `cluster_meanings` as a partition: which samples share a label, and which label it is.

    Two samples are linked where both assert something and each entails the other; that is not
    transitive, so clusters are what chains of links hold together. CORRECT: the label of a sample is the
    least index in its connected component, in whatever order the pairs are visited, and on the array of
    parents every loop ends within as many turns as there are samples (`cluster_meanings_components`). -/

namespace GuardMem

open Lib.Forest

variable (py : Python) (lib : Stdlib)

/-! ### Any order of comparison -/

/-- `cluster_meanings` with the pairs visited in a given order. -/
def cluster_in_order (order : List (ℕ × ℕ)) (samples : List (Option String)) (entail : EntailFn) :
    Except Exc MeaningClusters :=
  if samples = [] then .error (.ValueError
    ("semantic entropy needs at least one sample; MEMORY_ENGINE.md 3.1 " ++
      "defines H_norm from K = 1 upward, and K = 0 would score as certain"))
  else do
    let parent ← order.foldlM (compare_samples py samples entail) singletons
    let labels := parent.find_all (List.range samples.length)
    .ok { labels := labels, entropy := normalised_entropy py lib labels
          minority := (List.range samples.length).filter fun i => labels.getD i 0 ≠ labels.getD 0 0 }

/-- The labels as they are found in the array of parents, each loop given up after `fuel` turns. -/
def cluster_in (fuel : ℕ) (order : List (ℕ × ℕ)) (samples : List (Option String))
    (entail : String → String → ℚ) : Option (List ℕ) := do
  let parent ← order.foldlM
    (fun parent pair => if both_entail py entail samples pair then union_in fuel parent pair.1 pair.2
      else some parent) (List.range samples.length)
  find_all_in fuel parent (List.range samples.length)

/-- The order visits each pair of two samples, in one direction or both, and nothing else. -/
def Visits (order : List (ℕ × ℕ)) (size : ℕ) : Prop :=
  ∀ i j, (i, j) ∈ order ∨ (j, i) ∈ order ↔ i ≠ j ∧ i < size ∧ j < size

theorem combinations_visits (size : ℕ) : Visits (combinations (List.range size)) size := by
  intro i j
  rw [mem_combinations_range, mem_combinations_range]
  omega

/-! ### Components -/

/-- Both samples assert something, and each entails the other. -/
def SameMeaning (entail : String → String → ℚ) (samples : List (Option String)) (i j : ℕ) : Prop :=
  ∃ s t, samples[i]? = some (some s) ∧ samples[j]? = some (some t) ∧
    SAME_MEANING py ≤ entail s t ∧ SAME_MEANING py ≤ entail t s

/-- A chain of links joins the two. -/
def Connected (entail : String → String → ℚ) (samples : List (Option String)) : ℕ → ℕ → Prop :=
  Relation.EqvGen (SameMeaning py entail samples)

variable {py lib} {entail : String → String → ℚ} {samples : List (Option String)} {order : List (ℕ × ℕ)}
  {i j : ℕ}

theorem both_entail_iff : both_entail py entail samples (i, j) = true ↔ SameMeaning py entail samples i j := by
  have hget : ∀ k s, samples.getD k none = some s ↔ samples[k]? = some (some s) := by
    intro k s
    rw [List.getD_eq_getElem?_getD]
    cases samples[k]? <;> simp
  unfold both_entail SameMeaning
  simp only [← hget]
  cases samples.getD i none with
  | none => simp
  | some s =>
      cases samples.getD j none with
      | none => simp
      | some t => simp

theorem SameMeaning.symm (h : SameMeaning py entail samples i j) : SameMeaning py entail samples j i := by
  obtain ⟨s, t, hs, ht, hforward, hback⟩ := h
  exact ⟨t, s, ht, hs, hback, hforward⟩

theorem SameMeaning.lt (h : SameMeaning py entail samples i j) : i < samples.length ∧ j < samples.length := by
  obtain ⟨s, t, hs, ht, -⟩ := h
  exact ⟨(List.getElem?_eq_some_iff.mp hs).1, (List.getElem?_eq_some_iff.mp ht).1⟩

/-- A sample outside the links is connected to itself only. -/
theorem Connected.eq_of_unlinked (h : ∀ j, ¬ SameMeaning py entail samples i j)
    (hij : Connected py entail samples i j) :
    j = i := eqvGen_alone (fun k hk => (hk.elim (h k) fun hlink => h k hlink.symm).elim) hij

/-- The pairs that are merged connect what the links connect. -/
theorem merged_connected (h : Visits order samples.length) :
    Relation.EqvGen (fun i j => (i, j) ∈ order.filter (both_entail py entail samples)) i j ↔
      Connected py entail samples i j := by
  constructor
  · intro hij
    exact hij.mono fun a b hab => both_entail_iff.mp (List.mem_filter.mp hab).2
  · intro hij
    induction hij with
    | rel a b hlink =>
        rcases eq_or_ne a b with rfl | hne
        · exact .refl a
        · rcases (h a b).mpr ⟨hne, hlink.lt⟩ with hmem | hmem
          · exact .rel _ _ (List.mem_filter.mpr ⟨hmem, both_entail_iff.mpr hlink⟩)
          · exact .symm _ _ (.rel _ _ (List.mem_filter.mpr ⟨hmem, both_entail_iff.mpr hlink.symm⟩))
    | refl a => exact .refl a
    | symm a b _ ih => exact .symm _ _ ih
    | trans a b c _ _ ih ih' => exact .trans _ _ _ ih ih'

/-- Whatever the order, the roots tell the components apart. -/
theorem merged_classes (h : Visits order samples.length) :
    (singletons.merge (order.filter (both_entail py entail samples))).Classes (SameMeaning py entail samples) :=
  fun i j => (same_root_merge _ i j).trans (merged_connected h)

/-- And so are the same. -/
theorem merged_root (h : Visits order samples.length) :
    (singletons.merge (order.filter (both_entail py entail samples))).root =
      (singletons.merge ((combinations (List.range samples.length)).filter (both_entail py entail samples))).root :=
  funext fun i => ((merged_classes h).isLeast i).unique
    ((merged_classes (combinations_visits samples.length)).isLeast i)

theorem cluster_in_order_eq (hsamples : samples ≠ []) :
    cluster_in_order py lib order samples (fun s t => .ok (entail s t)) =
      (let labels := (List.range samples.length).map
        (singletons.merge (order.filter (both_entail py entail samples))).root
      .ok { labels := labels, entropy := normalised_entropy py lib labels
            minority := (List.range samples.length).filter fun i =>
              labels.getD i 0 ≠ labels.getD 0 0 }) := by
  have hmerged : order.foldlM (compare_samples py samples fun s t => .ok (entail s t)) singletons =
      .ok (singletons.merge (order.filter (both_entail py entail samples))) :=
    foldlM_compare _ _ fun _ _ _ _ _ _ => ⟨rfl, rfl⟩
  rw [cluster_in_order, if_neg hsamples, hmerged]
  simp only [find_all_eq]
  rfl

/-! ### The array of parents -/

theorem foldlM_union (horder : ∀ pair ∈ order, pair.1 < samples.length ∧ pair.2 < samples.length) :
    ∀ f : Lib.Forest, order.foldlM (fun parent pair => if both_entail py entail samples pair then
        union_in samples.length parent pair.1 pair.2 else some parent) (f.table samples.length) =
      some ((f.merge (order.filter (both_entail py entail samples))).table samples.length) := by
  induction order with
  | nil => exact fun f => rfl
  | cons pair order ih =>
      intro f
      obtain ⟨hleft, hright⟩ := horder pair List.mem_cons_self
      have hrest := ih fun p hp => horder p (List.mem_cons_of_mem _ hp)
      rw [List.foldlM_cons, List.filter_cons]
      split_ifs
      · rw [union_table hleft hright le_rfl]
        exact hrest (f.union pair.1 pair.2)
      · exact hrest f

theorem cluster_in_eq (h : Visits order samples.length) :
    cluster_in py samples.length order samples entail = some ((List.range samples.length).map
      (singletons.merge (order.filter (both_entail py entail samples))).root) := by
  have hrange : List.range samples.length = singletons.table samples.length := (List.map_id _).symm
  have hinside : ∀ pair ∈ order, pair.1 < samples.length ∧ pair.2 < samples.length :=
    fun pair hpair => ((h pair.1 pair.2).mp (Or.inl hpair)).2
  have hmerged := @foldlM_union py entail samples order hinside singletons
  rw [← hrange] at hmerged
  rw [cluster_in, hmerged]
  exact (find_all_table (fun i hi => List.mem_range.mp hi) le_rfl).trans (congrArg some (find_all_eq _ _))

/-! ### The clustering -/

/-- CORRECT: each sample is labelled with the least index in its component. The canonical sample is
    labelled 0, an abstention is alone, the minority is what is not connected to the canonical sample, and
    neither the order of the pairs nor the array of parents changes any of it. -/
theorem cluster_meanings_components (py : Python) (lib : Stdlib) (samples : List (Option String))
    (entail : String → String → ℚ) (hsamples : samples ≠ []) :
    ∃ clusters, cluster_meanings py lib samples (fun s t => .ok (entail s t)) = .ok clusters ∧
      clusters.labels.length = samples.length ∧
      (∀ i < samples.length,
        IsLeast {j | Connected py entail samples i j} (clusters.labels.getD i 0)) ∧
      clusters.labels.head? = some 0 ∧
      (∀ i < samples.length, samples[i]? = some none → ∀ j < samples.length,
        clusters.labels.getD j 0 = clusters.labels.getD i 0 → j = i) ∧
      (∀ i, i ∈ clusters.minority ↔ i < samples.length ∧ ¬ Connected py entail samples 0 i) ∧
      clusters.minority.Pairwise (· < ·) ∧
      ∀ order, Visits order samples.length →
        cluster_in_order py lib order samples (fun s t => .ok (entail s t)) = .ok clusters ∧
          cluster_in py samples.length order samples entail = some clusters.labels := by
  have hvisits := combinations_visits samples.length
  have hclasses := @merged_classes py entail samples _ hvisits
  set f := singletons.merge ((combinations (List.range samples.length)).filter
    (both_entail py entail samples)) with hf
  have hlabel : ∀ i < samples.length, ((List.range samples.length).map f.root).getD i 0 = f.root i := by
    intro i hi
    simp [hi]
  have hsize : 0 < samples.length := List.length_pos_iff.mpr hsamples
  refine ⟨_, cluster_in_order_eq hsamples, by simp, fun i hi => ?_, ?_, fun i hi hnone j hj hsame => ?_,
    fun i => ?_, ?_, fun order horder => ⟨?_, ?_⟩⟩
  · dsimp only
    rw [hlabel i hi]
    exact hclasses.isLeast i
  · have hhead : (List.range samples.length).head? = some 0 := by
      rw [List.head?_range, if_neg hsize.ne']
    dsimp only
    rw [List.head?_map, hhead]
    exact congrArg some (Nat.le_zero.mp (root_le 0))
  · dsimp only at hsame
    rw [hlabel i hi, hlabel j hj] at hsame
    refine Connected.eq_of_unlinked (fun k hlink => ?_) ((hclasses i j).mp hsame.symm)
    obtain ⟨s, -, hs, -⟩ := hlink
    rw [hnone] at hs
    cases hs
  · rw [List.mem_filter, List.mem_range, decide_eq_true_eq]
    refine and_congr_right fun hi => not_congr ?_
    rw [hlabel i hi, hlabel 0 hsize]
    exact eq_comm.trans (hclasses 0 i)
  · exact List.pairwise_lt_range.filter _
  · rw [cluster_in_order_eq hsamples, merged_root horder]
  · rw [cluster_in_eq horder, merged_root horder]

namespace Clinical

/-- Three draws that agree in a chain, one that abstains and one that stands alone. -/
def chained_samples : List (Option String) := [some "5 mg", none, some "5 mg daily", some "daily", some "10 mg"]

def chained_entail (s t : String) : ℚ :=
  if (s, t) ∈ [("5 mg", "5 mg daily"), ("5 mg daily", "5 mg"), ("5 mg daily", "daily"), ("daily", "5 mg daily")]
  then 1 else 0

/-- The natural logarithms that five draws in clusters of three and one take, as doubles. -/
def five_draws : Stdlib where
  dumps _ := ""
  repr s := "'" ++ s ++ "'"
  math_log n := if n = 5 then 16094379124341003 / 10 ^ 16 else 0
  np_log p := if p = python.div 3 5 then -5108256237659907 / 10 ^ 16 else -16094379124341003 / 10 ^ 16
  np_sum := List.sum

end Clinical

open Clinical in
theorem chained_samples_clustered : ∃ clusters,
    cluster_meanings python five_draws chained_samples (fun s t => .ok (chained_entail s t)) = .ok clusters ∧
      clusters.labels = [0, 1, 0, 0, 4] ∧
      IsLeast {j | Connected python chained_entail chained_samples 3 j} 0 := by
  obtain ⟨clusters, hok, -, hleast, -, -, -, -, horder⟩ :=
    cluster_meanings_components python five_draws chained_samples chained_entail (List.cons_ne_nil _ _)
  have hlabels : cluster_in python 5 (combinations (List.range 5)) chained_samples chained_entail =
      some [0, 1, 0, 0, 4] := by decide +kernel
  have hfound : clusters.labels = [0, 1, 0, 0, 4] :=
    Option.some.inj ((horder _ (combinations_visits 5)).2.symm.trans hlabels)
  have hdaily := hleast 3 (by decide)
  rw [hfound] at hdaily
  exact ⟨clusters, hok, hfound, hdaily⟩

end GuardMem
