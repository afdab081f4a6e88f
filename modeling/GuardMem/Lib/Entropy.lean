import GuardMem.Lib.Table
import Mathlib.Algebra.BigOperators.Group.Finset.Basic
import Mathlib.Algebra.Order.BigOperators.Group.List
import Mathlib.Analysis.SpecialFunctions.Log.NegMulLog

/-! The entropy of a sample, sorted into classes by a label.

    It is the logarithm of the sample's size less the mean logarithm of the class each member is in
    (`entropy_eq`), and the rest is read off the sizes of the classes. So CORRECT: it is between zero and
    that logarithm (`entropy_nonneg`, `entropy_le_log`), zero where there is one class (`entropy_eq_zero`),
    the whole logarithm where no two share one (`entropy_eq_log`), and classes that only grow never raise
    it (`entropy_anti`, `entropy_strict_anti`). -/

namespace Lib.Entropy

variable {α β γ : Type*} [DecidableEq β] [DecidableEq γ]

/-- How many of the sample are labelled as `a` is. -/
def size (label : α → β) (s : List α) (a : α) : ℕ := s.countP fun b => label b = label a

/-- `- ∑ p log p` over the labels, `p` the share of the sample a label has. -/
noncomputable def entropy (label : α → β) (s : List α) : ℝ :=
  ((s.map label).dedup.map fun b => Real.negMulLog (((s.map label).count b : ℝ) / s.length)).sum

variable {label : α → β} {label' : α → γ} {s : List α} {a : α}

/-! ### Sizes -/

theorem count_label (label : α → β) (s : List α) (a : α) : (s.map label).count (label a) = size label s a := by
  rw [List.count_eq_countP, List.countP_map]
  exact List.countP_congr fun b _ => by simp

theorem one_le_size (ha : a ∈ s) : 1 ≤ size label s a :=
  List.countP_pos_iff.mpr ⟨a, ha, by simp⟩

theorem size_eq_length : size label s a = s.length ↔ ∀ b ∈ s, label b = label a := by
  simp [size, List.countP_eq_length]

/-- No two share a class exactly where every class is of one. -/
theorem size_eq_one : (∀ a ∈ s, size label s a = 1) ↔ (s.map label).Nodup := by
  rw [List.nodup_iff_count_eq_one, List.forall_mem_map]
  simp only [count_label]

/-- A class that takes in the members of another is no smaller. -/
theorem size_mono (h : ∀ b ∈ s, label b = label a → label' b = label' a) :
    size label s a ≤ size label' s a :=
  List.countP_mono_left fun b hb => by simpa using h b hb

/-! ### Sums over labels -/

/-- Either way of leaving repetitions out leaves each value once. -/
theorem eraseDups_perm (l : List β) : l.eraseDups.Perm l.dedup :=
  (List.perm_ext_iff_of_nodup Table.nodup_eraseDups l.nodup_dedup).mpr fun b => by simp

/-- A sum over the labels, each as often as it occurs, is the sum over the sample. -/
theorem sum_over_labels (g : β → ℝ) (l : List β) :
    (l.dedup.map fun b => (l.count b : ℝ) * g b).sum = (l.map g).sum := by
  have hsame : l.dedup.toFinset = l.toFinset := Finset.ext fun b => by simp
  rw [Finset.sum_list_map_count l g, ← hsame, List.sum_toFinset _ l.nodup_dedup]
  simp only [nsmul_eq_mul]

theorem sum_sub_div (c n : ℝ) (g : α → ℝ) : ∀ s : List α,
    (s.map fun a => (c - g a) / n).sum = s.length * c / n - (s.map g).sum / n := by
  intro s
  induction s with
  | nil => simp
  | cons a s ih =>
      rw [List.map_cons, List.sum_cons, ih, List.map_cons, List.sum_cons, List.length_cons]
      push_cast
      ring

/-- The entropy is the logarithm of the size less the mean logarithm of the classes. -/
theorem entropy_eq (hs : s ≠ []) : entropy label s =
    Real.log s.length - (s.map fun a => Real.log (size label s a)).sum / s.length := by
  have hlength : (s.length : ℝ) ≠ 0 := by simpa using hs
  have hterm : ∀ b ∈ (s.map label).dedup, Real.negMulLog (((s.map label).count b : ℝ) / s.length) =
      ((s.map label).count b : ℝ) * ((Real.log s.length - Real.log ((s.map label).count b)) / s.length) := by
    intro b hb
    have hcount : ((s.map label).count b : ℝ) ≠ 0 := by
      have hpos := List.count_pos_iff.mpr (List.mem_dedup.mp hb)
      exact_mod_cast hpos.ne'
    rw [Real.negMulLog, Real.log_div hcount hlength]
    ring
  have hmean := sum_over_labels
    (fun b => (Real.log s.length - Real.log ((s.map label).count b)) / s.length) (s.map label)
  rw [entropy, List.map_congr_left hterm, hmean, List.map_map]
  simp only [Function.comp_def, count_label]
  rw [sum_sub_div, mul_div_cancel_left₀ _ hlength]

/-! ### Bounds -/

theorem log_size_nonneg (ha : a ∈ s) : 0 ≤ Real.log (size label s a) :=
  Real.log_nonneg (by exact_mod_cast one_le_size ha)

theorem log_size_mono (ha : a ∈ s) (h : size label s a ≤ size label' s a) :
    Real.log (size label s a) ≤ Real.log (size label' s a) :=
  Real.log_le_log (by exact_mod_cast one_le_size ha) (by exact_mod_cast h)

theorem log_size_strict_mono (ha : a ∈ s) (h : size label s a < size label' s a) :
    Real.log (size label s a) < Real.log (size label' s a) :=
  Real.log_lt_log (by exact_mod_cast one_le_size ha) (by exact_mod_cast h)

/-- CORRECT: classes that only grow never raise the entropy. -/
theorem entropy_anti (h : ∀ a ∈ s, size label s a ≤ size label' s a) : entropy label' s ≤ entropy label s := by
  rcases eq_or_ne s [] with rfl | hs
  · simp [entropy]
  · rw [entropy_eq hs, entropy_eq hs]
    have hsum := List.sum_le_sum fun a ha => log_size_mono ha (h a ha)
    gcongr

/-- And lower it where one does grow. -/
theorem entropy_strict_anti (h : ∀ a ∈ s, size label s a ≤ size label' s a)
    (hlt : ∃ a ∈ s, size label s a < size label' s a) : entropy label' s < entropy label s := by
  obtain ⟨a, ha, hsize⟩ := hlt
  have hs : s ≠ [] := List.ne_nil_of_mem ha
  have hlength : (0 : ℝ) < s.length := by exact_mod_cast List.length_pos_iff.mpr hs
  have hsum := List.sum_lt_sum _ _ (fun a ha => log_size_mono ha (h a ha))
    ⟨a, ha, log_size_strict_mono ha hsize⟩
  rw [entropy_eq hs, entropy_eq hs]
  gcongr

variable (label s) in
/-- One class: everything is labelled alike. -/
theorem entropy_one_class (h : ∀ a ∈ s, size label s a = s.length) : entropy label s = 0 := by
  rcases eq_or_ne s [] with rfl | hs
  · simp [entropy]
  · have hlength : (s.length : ℝ) ≠ 0 := by simpa using hs
    have hlogs : (s.map fun a => Real.log (size label s a)) = s.map fun _ => Real.log s.length :=
      List.map_congr_left fun a ha => by rw [h a ha]
    rw [entropy_eq hs, hlogs, List.map_const', List.sum_replicate, nsmul_eq_mul,
      mul_div_cancel_left₀ _ hlength, sub_self]

/-- No two in one class. -/
theorem entropy_no_class (h : ∀ a ∈ s, size label s a = 1) : entropy label s = Real.log s.length := by
  rcases eq_or_ne s [] with rfl | hs
  · simp [entropy]
  · have hlogs : (s.map fun a => Real.log (size label s a)) = s.map fun _ => (0 : ℝ) :=
      List.map_congr_left fun a ha => by rw [h a ha, Nat.cast_one, Real.log_one]
    rw [entropy_eq hs, hlogs, List.map_const', List.sum_replicate, nsmul_zero, zero_div, sub_zero]

theorem entropy_nonneg (label : α → β) (s : List α) : 0 ≤ entropy label s := by
  have hone := entropy_one_class (fun _ : α => ()) s fun a _ => size_eq_length.mpr fun _ _ => rfl
  rw [← hone]
  exact entropy_anti fun a _ => size_mono fun _ _ _ => rfl

/-- CORRECT: the entropy is zero exactly where there is one class. -/
theorem entropy_eq_zero : entropy label s = 0 ↔ ∀ a ∈ s, ∀ b ∈ s, label b = label a := by
  constructor
  · intro h a ha
    by_contra hb
    have hone := entropy_one_class (fun _ : α => ()) s fun a _ => size_eq_length.mpr fun _ _ => rfl
    have hlt : size label s a < size (fun _ => ()) s a := by
      refine lt_of_le_of_ne (size_mono fun _ _ _ => rfl) fun heq => hb (size_eq_length.mp ?_)
      rw [heq, size_eq_length]
      exact fun _ _ => rfl
    have hless := entropy_strict_anti (fun a _ => size_mono fun _ _ _ => rfl) ⟨a, ha, hlt⟩
    rw [hone, h] at hless
    exact lt_irrefl 0 hless
  · intro h
    exact entropy_one_class label s fun a ha => size_eq_length.mpr (h a ha)

theorem sum_log_size_nonneg : 0 ≤ (s.map fun a => Real.log (size label s a)).sum :=
  List.sum_nonneg fun x hx => by
    obtain ⟨a, ha, rfl⟩ := List.mem_map.mp hx
    exact log_size_nonneg ha

theorem entropy_le_log (label : α → β) (s : List α) : entropy label s ≤ Real.log s.length := by
  rcases eq_or_ne s [] with rfl | hs
  · simp [entropy]
  · rw [entropy_eq hs]
    exact sub_le_self _ (div_nonneg sum_log_size_nonneg (Nat.cast_nonneg _))

/-- CORRECT: the entropy is the whole logarithm exactly where no two share a class. -/
theorem entropy_eq_log : entropy label s = Real.log s.length ↔ (s.map label).Nodup := by
  constructor
  · intro h
    rw [← size_eq_one]
    intro a ha
    have hs : s ≠ [] := List.ne_nil_of_mem ha
    have hlength : (0 : ℝ) < s.length := by exact_mod_cast List.length_pos_iff.mpr hs
    by_contra hsize
    have hlog : 0 < Real.log (size label s a) :=
      Real.log_pos (by exact_mod_cast (one_le_size ha).lt_of_ne' hsize)
    have hsum : (s.map fun _ => (0 : ℝ)).sum < (s.map fun a => Real.log (size label s a)).sum :=
      List.sum_lt_sum _ _ (fun a ha => log_size_nonneg ha) ⟨a, ha, hlog⟩
    rw [List.map_const', List.sum_replicate, nsmul_zero] at hsum
    rw [entropy_eq hs] at h
    have hmean := div_pos hsum hlength
    linarith
  · intro h
    exact entropy_no_class (size_eq_one.mpr h)

end Lib.Entropy
