import GuardMem.Lib.MidRank
import GuardMem.Schemas.Base
import Mathlib.Algebra.Order.Field.Basic
import Mathlib.Data.Bool.Count
import Mathlib.Data.List.GetD

/-! How well a score separates what a human would keep from the rest: `discrimination.auroc`.

    The ranks are those of a stable argsort, and a loop averages each run of equal scores once the next
    score, or the end, shows where it stops. CORRECT: the ranks are the midranks of the scores
    (`average_ranks_eq`), and the normalised rank sum counts the pairs a kept score wins, a tie as half
    (`auroc_pairs`). -/

namespace GuardMem

open Lib.MidRank

/-- `np.argsort(scores, kind="stable")`. -/
def argsort (scores : List ℚ) : List ℕ :=
  (List.range scores.length).insertionSort fun i j => scores.getD i 0 ≤ scores.getD j 0

/-- `xs[places]`. -/
def gather (xs : List ℚ) (places : List ℕ) : List ℚ := places.map fun i => xs.getD i 0

/-- `xs[places] = values`, the two of one length. -/
def assign (xs : List ℚ) (entries : List (ℕ × ℚ)) : List ℚ := entries.foldl (fun xs e => xs.set e.1 e.2) xs

/-- `xs.mean()`. -/
def mean (xs : List ℚ) : ℚ := xs.sum / xs.length

/-- Where the run of equal scores at hand starts, and the ranks. -/
structure Averaging where
  start : ℕ
  ranks : List ℚ

/-- Where the run ends before `index`, its ranks become their mean. -/
def average_run (order : List ℕ) (ordered : List ℚ) (s : Averaging) (index : ℕ) : Averaging :=
  if index = ordered.length ∨ ordered.getD index 0 ≠ ordered.getD s.start 0 then
    let run := (order.take index).drop s.start
    { start := index
      ranks := if 1 < index - s.start then
          assign s.ranks (run.map fun i => (i, mean (gather s.ranks run)))
        else s.ranks }
  else s

/-- Ranks from 1, with tied values sharing their average rank. -/
def average_ranks (scores : List ℚ) : List ℚ :=
  let order := argsort scores
  let ranks := assign (List.replicate scores.length 0)
    (order.zip ((List.range scores.length).map fun p : ℕ => (p : ℚ) + 1))
  let ordered := gather scores order
  ((List.range' 1 ordered.length).foldl (average_run order ordered) ⟨0, ranks⟩).ranks

/-- Area under the ROC curve, by ranks. -/
def auroc (labels : List Bool) (scores : List ℚ) : Except Exc ℚ :=
  if labels.length ≠ scores.length then
    .error (.ValueError (toString labels.length ++ " labels against " ++ toString scores.length ++ " scores"))
  else if labels.isEmpty then
    .error (.ValueError "no labelled candidates; AUROC is undefined over an empty set")
  else
    let kept := labels.count true
    let rejected := labels.length - kept
    if kept = 0 ∨ rejected = 0 then
      .error (.ValueError ("every candidate is labelled " ++ (if kept = 0 then "reject" else "keep") ++
        "; AUROC needs both classes. This is a labelling problem, not a scorer one"))
    else
      let ranks := average_ranks scores
      let kept_rank_sum := ((labels.zip ranks).filterMap fun p => if p.1 then some p.2 else none).sum
      .ok ((kept_rank_sum - kept * (kept + 1) / 2) / (kept * rejected))

variable {scores : List ℚ} {order : List ℕ} {xs : List ℚ} {entries : List (ℕ × ℚ)} {i : ℕ}

/-! ### Assignments -/

@[simp] theorem length_assign : ∀ {entries : List (ℕ × ℚ)} {xs : List ℚ},
    (assign xs entries).length = xs.length
  | [], _ => rfl
  | e :: entries, xs => by
      rw [assign, List.foldl_cons]
      exact length_assign.trans (List.length_set)

/-- What is assigned nothing keeps its value. -/
theorem assign_other : ∀ {entries : List (ℕ × ℚ)} {xs : List ℚ}, i ∉ entries.map Prod.fst →
    (assign xs entries).getD i 0 = xs.getD i 0
  | [], _, _ => rfl
  | e :: entries, xs, h => by
      rw [List.map_cons, List.mem_cons, not_or] at h
      rw [assign, List.foldl_cons]
      refine (assign_other h.2).trans ?_
      rw [List.getD_eq_getElem?_getD, List.getElem?_set_ne (Ne.symm h.1), ← List.getD_eq_getElem?_getD]

/-- Under distinct places each has the value it was assigned. -/
theorem assign_place : ∀ {entries : List (ℕ × ℚ)} {xs : List ℚ} {v : ℚ}, (entries.map Prod.fst).Nodup →
    (i, v) ∈ entries → i < xs.length → (assign xs entries).getD i 0 = v
  | [], _, _, _, h, _ => nomatch h
  | e :: entries, xs, v, hnd, h, hi => by
      obtain ⟨hnot, hnd⟩ := List.nodup_cons.mp hnd
      rw [assign, List.foldl_cons]
      rcases List.mem_cons.mp h with rfl | h
      · refine (assign_other hnot).trans ?_
        rw [List.getD_eq_getElem?_getD, List.getElem?_set_self hi, Option.getD_some]
      · exact assign_place hnd h (hi.trans_eq List.length_set.symm)

/-- One value for all of a run. -/
theorem assign_run {run : List ℕ} {v : ℚ} (hnd : run.Nodup) (hi : i < xs.length) :
    (assign xs (run.map fun i => (i, v))).getD i 0 = if i ∈ run then v else xs.getD i 0 := by
  have hkeys : (run.map fun i => (i, v)).map Prod.fst = run := by simp [Function.comp_def]
  split_ifs with hin
  · exact assign_place (hkeys.symm ▸ hnd) (List.mem_map.mpr ⟨i, hin, rfl⟩) hi
  · exact assign_other (hkeys.symm ▸ hin)

/-! ### The order -/

/-- Places in the order of their scores. -/
structure Sorted (scores : List ℚ) (order : List ℕ) : Prop where
  perm : order.Perm (List.range scores.length)
  sorted : order.Pairwise fun i j => scores.getD i 0 ≤ scores.getD j 0

theorem argsort_sorted (scores : List ℚ) : Sorted scores (argsort scores) where
  perm := List.perm_insertionSort _ _
  sorted := by
    have : Std.Total fun i j : ℕ => scores.getD i 0 ≤ scores.getD j 0 := ⟨fun _ _ => le_total _ _⟩
    have : IsTrans ℕ fun i j => scores.getD i 0 ≤ scores.getD j 0 := ⟨fun _ _ _ => le_trans⟩
    exact List.pairwise_insertionSort _ _

namespace Sorted

variable (h : Sorted scores order)
include h

theorem length : order.length = scores.length := h.perm.length_eq.trans List.length_range

theorem length_gather : (gather scores order).length = scores.length := (List.length_map _).trans h.length

theorem lt {p : ℕ} (hp : p < scores.length) : order.getD p 0 < scores.length := by
  have hp' : p < order.length := hp.trans_eq h.length.symm
  rw [List.getD_eq_getElem _ _ hp']
  exact List.mem_range.mp (h.perm.mem_iff.mp (List.getElem_mem hp'))

theorem inj {p q : ℕ} (hp : p < scores.length) (hq : q < scores.length)
    (heq : order.getD p 0 = order.getD q 0) : p = q := by
  have hnd : order.Nodup := h.perm.nodup_iff.mpr List.nodup_range
  rw [List.getD_eq_getElem _ _ (hp.trans_eq h.length.symm),
    List.getD_eq_getElem _ _ (hq.trans_eq h.length.symm)] at heq
  exact (hnd.getElem_inj_iff).mp heq

/-- Every place is somewhere in the order. -/
theorem surj (hi : i < scores.length) : ∃ p < scores.length, order.getD p 0 = i := by
  obtain ⟨p, hp, hpi⟩ := List.getElem_of_mem (h.perm.mem_iff.mpr (List.mem_range.mpr hi))
  exact ⟨p, hp.trans_eq h.length, by rw [List.getD_eq_getElem _ _ hp, hpi]⟩

theorem getD_gather {p : ℕ} (hp : p < scores.length) :
    (gather scores order).getD p 0 = scores.getD (order.getD p 0) 0 := by
  have hp' : p < order.length := hp.trans_eq h.length.symm
  rw [List.getD_eq_getElem _ _ (hp.trans_eq h.length_gather.symm), List.getD_eq_getElem _ _ hp']
  exact List.getElem_map _

/-- The scores, in order. -/
theorem gather_perm : (gather scores order).Perm scores := by
  have hall : (List.range scores.length).map (fun i => scores.getD i 0) = scores := by
    refine List.ext_getElem (by simp) fun i hi hi' => ?_
    simp [List.getElem?_eq_getElem hi']
  exact (h.perm.map _).trans (List.Perm.of_eq hall)

theorem mono {p q : ℕ} (hpq : p ≤ q) (hq : q < scores.length) :
    (gather scores order).getD p 0 ≤ (gather scores order).getD q 0 := by
  rcases hpq.lt_or_eq with hlt | rfl
  · have hq' : q < order.length := hq.trans_eq h.length.symm
    have hle := List.pairwise_iff_getElem.mp h.sorted p q (hlt.trans hq') hq' hlt
    rwa [h.getD_gather (hlt.trans hq), h.getD_gather hq, List.getD_eq_getElem _ _ (hlt.trans hq'),
      List.getD_eq_getElem _ _ hq']
  · exact le_rfl

/-- The places of a run. -/
theorem run_eq {start stop : ℕ} (hstop : stop ≤ scores.length) : (order.take stop).drop start =
    (List.range' start (stop - start)).map fun p => order.getD p 0 := by
  have hlen := h.length
  refine List.ext_getElem (by simp; omega) fun p hp hp' => ?_
  rw [List.length_drop, List.length_take] at hp
  rw [List.getElem_drop, List.getElem_take, List.getElem_map, List.getElem_range', Nat.one_mul,
    List.getD_eq_getElem _ _ (by omega)]

theorem mem_run {start stop q : ℕ} (hstop : stop ≤ scores.length) (hq : q < scores.length) :
    order.getD q 0 ∈ (order.take stop).drop start ↔ start ≤ q ∧ q < stop := by
  rw [h.run_eq hstop, List.mem_map]
  constructor
  · rintro ⟨r, hr, heq⟩
    obtain ⟨hr1, hr2⟩ := List.mem_range'_1.mp hr
    obtain rfl := h.inj (by omega) hq heq
    omega
  · intro hq'
    exact ⟨q, List.mem_range'_1.mpr (by omega), rfl⟩

theorem run_nodup {start stop : ℕ} : ((order.take stop).drop start).Nodup :=
  (h.perm.nodup_iff.mpr List.nodup_range).sublist ((List.drop_sublist _ _).trans (List.take_sublist _ _))

end Sorted

/-! ### The loop -/

/-- The places from `start` on, counted from one, sum to what their mean says. -/
theorem sum_places (start : ℕ) : ∀ m : ℕ, ((List.range' start m).map fun p : ℕ => (p : ℚ) + 1).sum =
    m * ((2 * start + m + 1 : ℕ) / 2)
  | 0 => by simp
  | m + 1 => by
      rw [List.range'_concat, List.map_append, List.sum_append, sum_places start m]
      push_cast [List.map_cons, List.map_nil, List.sum_cons, List.sum_nil]
      ring

/-- Before `index` is looked at: runs that ended have their ranks, the rest have their places. -/
structure Averaged (scores : List ℚ) (order : List ℕ) (index : ℕ) (s : Averaging) : Prop where
  length : s.ranks.length = scores.length
  started : s.start < index
  tied : ∀ p, s.start ≤ p → p < index →
    (gather scores order).getD p 0 = (gather scores order).getD s.start 0
  below : ∀ p < s.start, (gather scores order).getD p 0 < (gather scores order).getD s.start 0
  settled : ∀ p < s.start,
    s.ranks.getD (order.getD p 0) 0 = midrank scores ((gather scores order).getD p 0)
  fresh : ∀ p, s.start ≤ p → p < scores.length → s.ranks.getD (order.getD p 0) 0 = p + 1

variable {index p : ℕ} {s : Averaging}

/-- Every run starts with its places. -/
theorem averaged_start (h : Sorted scores order) : Averaged scores order 1
    ⟨0, assign (List.replicate scores.length 0)
      (order.zip ((List.range scores.length).map fun p : ℕ => (p : ℚ) + 1))⟩ where
  length := by simp
  started := Nat.one_pos
  tied p _ hp := by rw [Nat.lt_one_iff.mp hp]
  below p hp := absurd hp (Nat.not_lt_zero p)
  settled p hp := absurd hp (Nat.not_lt_zero p)
  fresh p _ hp := by
    have hlen := h.length
    have hkeys : (order.zip ((List.range scores.length).map fun p : ℕ => (p : ℚ) + 1)).map Prod.fst = order :=
      List.map_fst_zip (by simp [hlen])
    refine assign_place ?_ ?_ ?_
    · rw [hkeys]
      exact h.perm.nodup_iff.mpr List.nodup_range
    · refine List.mem_iff_getElem.mpr ⟨p, by simp [hlen, hp], ?_⟩
      rw [List.getElem_zip, List.getElem_map, List.getElem_range, List.getD_eq_getElem _ _ (by omega)]
    · rw [List.length_replicate]
      exact h.lt hp

/-- A run that ends before `index` has one rank, the mean of its places. -/
theorem run_midrank (h : Sorted scores order) (hs : Averaged scores order index s)
    (hindex : index ≤ scores.length)
    (hend : index = scores.length ∨ (gather scores order).getD index 0 ≠ (gather scores order).getD s.start 0)
    (hp : s.start ≤ p) (hpi : p < index) :
    midrank scores ((gather scores order).getD p 0) = (s.start + index + 1 : ℕ) / 2 := by
  have hlen := h.length_gather
  have hget : ∀ q (hq : q < (gather scores order).length),
      (gather scores order)[q] = (gather scores order).getD q 0 := fun q hq =>
    (List.getD_eq_getElem _ _ hq).symm
  rw [hs.tied p hp hpi, ← midrank_perm h.gather_perm]
  refine midrank_sorted hs.started.le (hindex.trans_eq hlen.symm) (fun q hq => ?_) fun q hq => ?_
  · rw [hget q hq]
    refine ⟨fun hlt => ?_, hs.below q⟩
    by_contra hge
    exact absurd hlt (not_lt.mpr (h.mono (not_lt.mp hge) (hq.trans_eq hlen)))
  · rw [hget q hq]
    constructor
    · intro hle
      by_contra hge
      rcases hend with rfl | hne
      · omega
      · have hq' : q < scores.length := hq.trans_eq hlen
        have hlater := h.mono (not_lt.mp hge) hq'
        have hstart := h.mono hs.started.le (lt_of_le_of_lt (not_lt.mp hge) hq')
        exact hne (le_antisymm (hlater.trans hle) hstart)
    · intro hlt
      rcases lt_or_ge q s.start with hq' | hq'
      · exact (hs.below q hq').le
      · exact (hs.tied q hq' hlt).le

/-- The mean of the ranks that the run's places had. -/
theorem mean_run (h : Sorted scores order) (hs : Averaged scores order index s)
    (hindex : index ≤ scores.length) :
    mean (gather s.ranks ((order.take index).drop s.start)) = (s.start + index + 1 : ℕ) / 2 := by
  have hstarted := hs.started
  have hplaces : gather s.ranks ((order.take index).drop s.start) =
      (List.range' s.start (index - s.start)).map fun p : ℕ => (p : ℚ) + 1 := by
    rw [h.run_eq hindex, gather, List.map_map]
    refine List.map_congr_left fun q hq => ?_
    obtain ⟨hq1, hq2⟩ := List.mem_range'_1.mp hq
    exact hs.fresh q hq1 (by omega)
  have hne : ((index - s.start : ℕ) : ℚ) ≠ 0 := Nat.cast_ne_zero.mpr (by omega)
  rw [hplaces, mean, sum_places, List.length_map, List.length_range', mul_div_cancel_left₀ _ hne]
  congr 2
  omega

/-- What the loop does where a run ends. -/
theorem average_run_end (h : Sorted scores order) (hs : Averaged scores order index s)
    (hindex : index ≤ scores.length)
    (hend : index = scores.length ∨ (gather scores order).getD index 0 ≠ (gather scores order).getD s.start 0) :
    (average_run order (gather scores order) s index).start = index ∧
      (average_run order (gather scores order) s index).ranks.length = scores.length ∧
      (∀ q < index, (average_run order (gather scores order) s index).ranks.getD (order.getD q 0) 0 =
        midrank scores ((gather scores order).getD q 0)) ∧
      ∀ q, index ≤ q → q < scores.length →
        (average_run order (gather scores order) s index).ranks.getD (order.getD q 0) 0 = q + 1 := by
  have hstarted := hs.started
  rw [average_run, if_pos (by rwa [h.length_gather])]
  dsimp only
  refine ⟨rfl, ?_⟩
  split_ifs with hrun
  · have hranks : ∀ q < scores.length, (assign s.ranks (((order.take index).drop s.start).map fun i =>
        (i, mean (gather s.ranks ((order.take index).drop s.start))))).getD (order.getD q 0) 0 =
          if s.start ≤ q ∧ q < index then ((s.start + index + 1 : ℕ) : ℚ) / 2
          else s.ranks.getD (order.getD q 0) 0 := by
      intro q hq
      rw [assign_run h.run_nodup ((h.lt hq).trans_eq hs.length.symm), mean_run h hs hindex]
      simp only [h.mem_run hindex hq]
    refine ⟨length_assign.trans hs.length, fun q hq => ?_, fun q hq hqn => ?_⟩
    · rw [hranks q (by omega)]
      rcases lt_or_ge q s.start with hlt | hge
      · rw [if_neg (by omega), hs.settled q hlt]
      · rw [if_pos ⟨hge, hq⟩, run_midrank h hs hindex hend hge hq]
    · rw [hranks q hqn, if_neg (by omega), hs.fresh q (by omega) hqn]
  · refine ⟨hs.length, fun q hq => ?_, fun q hq hqn => hs.fresh q (by omega) hqn⟩
    rcases lt_or_ge q s.start with hlt | hge
    · exact hs.settled q hlt
    · obtain rfl : q = s.start := by omega
      rw [hs.fresh s.start le_rfl (by omega), run_midrank h hs hindex hend le_rfl hq,
        show index = s.start + 1 by omega]
      push_cast
      ring

/-- One pass of the loop. -/
theorem averaged_step (h : Sorted scores order) (hs : Averaged scores order index s)
    (hindex : index < scores.length) :
    Averaged scores order (index + 1) (average_run order (gather scores order) s index) := by
  by_cases hend : (gather scores order).getD index 0 ≠ (gather scores order).getD s.start 0
  · obtain ⟨hstart, hlength, hsettled, hfresh⟩ := average_run_end h hs hindex.le (Or.inr hend)
    refine ⟨hlength, by omega, fun p hp hpi => ?_, fun p hp => ?_, fun p hp => ?_, fun p hp hpn => ?_⟩
    · rw [hstart] at hp ⊢
      rw [show p = index by omega]
    · rw [hstart] at hp ⊢
      have hstarted := hs.started
      have hlt : (gather scores order).getD s.start 0 < (gather scores order).getD index 0 :=
        lt_of_le_of_ne (h.mono hstarted.le hindex) (Ne.symm hend)
      rcases lt_or_ge p s.start with hp' | hp'
      · exact (hs.below p hp').trans hlt
      · rw [hs.tied p hp' hp]
        exact hlt
    · exact hsettled p (by omega)
    · exact hfresh p (by omega) hpn
  · have hsame : average_run order (gather scores order) s index = s := by
      rw [average_run, if_neg]
      rw [h.length_gather]
      exact not_or.mpr ⟨hindex.ne, hend⟩
    have hstarted := hs.started
    rw [hsame]
    refine ⟨hs.length, by omega, fun p hp hpi => ?_, hs.below, hs.settled, hs.fresh⟩
    rcases Nat.lt_succ_iff_lt_or_eq.mp hpi with hlt | rfl
    · exact hs.tied p hp hlt
    · exact not_not.mp hend

/-- The whole loop: at the end every run has ended. -/
theorem averaged_run (h : Sorted scores order) (hs : Averaged scores order 1 s) :
    ∀ m < scores.length, Averaged scores order (m + 1)
      ((List.range' 1 m).foldl (average_run order (gather scores order)) s)
  | 0, _ => hs
  | m + 1, hm => by
      rw [List.range'_concat, List.foldl_append, Nat.one_mul, Nat.add_comm 1 m]
      exact averaged_step h (averaged_run h hs m (by omega)) hm

/-- CORRECT: the ranks are the midranks. -/
theorem average_ranks_eq (scores : List ℚ) : average_ranks scores = scores.map (midrank scores) := by
  have h := argsort_sorted scores
  rcases Nat.eq_zero_or_pos scores.length with hzero | hpos
  · obtain rfl := List.length_eq_zero_iff.mp hzero
    rfl
  · obtain ⟨m, hm⟩ := Nat.exists_eq_succ_of_ne_zero hpos.ne'
    have hs := averaged_run h (averaged_start h) m (by omega)
    obtain ⟨-, hlength, hsettled, -⟩ := average_run_end h hs (by omega) (Or.inl hm.symm)
    have hranks : average_ranks scores = (average_run (argsort scores) (gather scores (argsort scores))
        ((List.range' 1 m).foldl (average_run (argsort scores) (gather scores (argsort scores)))
          ⟨0, assign (List.replicate scores.length 0)
            ((argsort scores).zip ((List.range scores.length).map fun p : ℕ => (p : ℚ) + 1))⟩) (m + 1)).ranks := by
      rw [average_ranks, h.length_gather, hm, List.range'_concat, List.foldl_append, Nat.one_mul,
        Nat.add_comm 1 m]
      rfl
    rw [hranks]
    refine List.ext_getElem (by rw [hlength, List.length_map]) fun i hi hi' => ?_
    rw [hlength] at hi
    obtain ⟨p, hp, rfl⟩ := h.surj hi
    have hrank := hsettled p (by omega)
    rw [h.getD_gather hp, List.getD_eq_getElem _ _ (hi.trans_eq hlength.symm),
      List.getD_eq_getElem _ _ hi] at hrank
    rw [hrank, List.getElem_map]

/-! ### The statistic -/

/-- The scores of the candidates with this label. -/
def scores_of (label : Bool) (labels : List Bool) (scores : List ℚ) : List ℚ :=
  ((labels.zip scores).filter fun p => p.1 == label).map Prod.snd

/-- The pairs of a kept and a rejected candidate that the kept one's score wins. -/
def won_pairs (labels : List Bool) (scores : List ℚ) : ℕ :=
  (scores_of true labels scores ×ˢ scores_of false labels scores).countP fun p => p.2 < p.1

/-- The pairs whose scores are equal. -/
def tied_pairs (labels : List Bool) (scores : List ℚ) : ℕ :=
  (scores_of true labels scores ×ˢ scores_of false labels scores).countP fun p => p.2 = p.1

variable {labels labels' : List Bool} {scores' : List ℚ} {label : Bool}

theorem length_scores_of (hlength : labels.length = scores.length) :
    (scores_of label labels scores).length = labels.count label := by
  have hlabels : (labels.zip scores).map Prod.fst = labels := List.map_fst_zip hlength.le
  conv_rhs => rw [← hlabels]
  rw [scores_of, List.length_map, ← List.countP_eq_length_filter, List.count, List.countP_map]
  rfl

theorem scores_of_perm (h : (labels'.zip scores').Perm (labels.zip scores)) :
    (scores_of label labels' scores').Perm (scores_of label labels scores) := (h.filter _).map _

/-- Both classes together are the scores. -/
theorem scores_perm (hlength : labels.length = scores.length) :
    (scores_of true labels scores ++ scores_of false labels scores).Perm scores := by
  have hscores : (labels.zip scores).map Prod.snd = scores := List.map_snd_zip hlength.ge
  have hsplit := List.filter_append_perm (fun p : Bool × ℚ => p.1) (labels.zip scores)
  have htrue : (fun p : Bool × ℚ => p.1 == true) = fun p => p.1 := by simp
  have hfalse : (fun p : Bool × ℚ => p.1 == false) = fun p => !p.1 := by simp
  rw [scores_of, scores_of, htrue, hfalse, ← List.map_append]
  conv_rhs => rw [← hscores]
  exact hsplit.map _

theorem scores_of_map {f : ℚ → ℚ} :
    scores_of label labels (scores.map f) = (scores_of label labels scores).map f := by
  rw [scores_of, scores_of, List.zip_map_right, List.filter_map, List.map_map, List.map_map]
  rfl

theorem scores_of_not : scores_of label (labels.map not) scores = scores_of (!label) labels scores := by
  rw [scores_of, scores_of, List.zip_map_left, List.filter_map, List.map_map]
  congr 1
  refine List.filter_congr fun p _ => ?_
  rcases p with ⟨_ | _, _⟩ <;> cases label <;> rfl

/-- Selecting the ranks of the kept ranks their scores. -/
theorem kept_ranks (labels : List Bool) (scores : List ℚ) (f : ℚ → ℚ) :
    ((labels.zip (scores.map f)).filterMap fun p => if p.1 then some p.2 else none) =
      (scores_of true labels scores).map f := by
  induction labels generalizing scores with
  | nil => rfl
  | cons label labels ih =>
      cases scores with
      | nil => rfl
      | cons x scores =>
          rw [List.map_cons, List.zip_cons_cons, List.filterMap_cons, ih]
          cases label <;> rfl

/-- CORRECT: with both classes there, the normalised rank sum is the tally of the kept over the rejected. -/
theorem auroc_ok (hlength : labels.length = scores.length) (hkept : true ∈ labels)
    (hrejected : false ∈ labels) :
    auroc labels scores = .ok (tally (scores_of true labels scores) (scores_of false labels scores) /
      (labels.count true * labels.count false)) := by
  have hk : 0 < labels.count true := List.count_pos_iff.mpr hkept
  have hr : 0 < labels.count false := List.count_pos_iff.mpr hrejected
  have htotal : labels.length - labels.count true = labels.count false := by
    have := List.count_false_add_count_true labels
    omega
  have hne : labels.isEmpty = false := by
    rw [List.isEmpty_eq_false_iff]
    rintro rfl
    cases hkept
  have hranks : scores.map (midrank scores) =
      scores.map (midrank (scores_of true labels scores ++ scores_of false labels scores)) :=
    List.map_congr_left fun x _ => (midrank_perm (scores_perm hlength) x).symm
  rw [auroc, if_neg (not_not.mpr hlength), hne, if_neg (by decide)]
  dsimp only
  rw [htotal, if_neg (by omega), average_ranks_eq, hranks, kept_ranks, sum_midrank,
    length_scores_of hlength, add_sub_cancel_right]

theorem mem_scores_of {x : ℚ} (h : x ∈ scores_of label labels scores) : x ∈ scores := by
  obtain ⟨p, hp, rfl⟩ := List.mem_map.mp h
  exact (List.of_mem_zip (List.mem_of_mem_filter hp)).2

/-- The area is the share of the pairs that the kept candidates win, a tie as half; it lies in the unit
    interval, and depends on the order of the scores alone. -/
theorem auroc_pairs (labels : List Bool) (scores : List ℚ) (hlength : labels.length = scores.length)
    (hkept : true ∈ labels) (hrejected : false ∈ labels) :
    ∃ area : ℚ, auroc labels scores = .ok area ∧
      area = (won_pairs labels scores + tied_pairs labels scores / 2) /
        (labels.count true * labels.count false) ∧
      (0 ≤ area ∧ area ≤ 1) ∧
      (∀ labels' scores', labels'.length = scores'.length →
        (labels'.zip scores').Perm (labels.zip scores) → auroc labels' scores' = .ok area) ∧
      (∀ f : ℚ → ℚ, (∀ x ∈ scores, ∀ y ∈ scores, x < y → f x < f y) →
        auroc labels (scores.map f) = .ok area) ∧
      auroc (labels.map not) scores = .ok (1 - area) := by
  have hpairs : (0 : ℚ) < labels.count true * labels.count false := by
    have hk : 0 < labels.count true := List.count_pos_iff.mpr hkept
    have hr : 0 < labels.count false := List.count_pos_iff.mpr hrejected
    positivity
  refine ⟨_, auroc_ok hlength hkept hrejected, ?_, ⟨?_, ?_⟩, ?_, ?_, ?_⟩
  · rw [tally_eq]
    rfl
  · exact div_nonneg tally_nonneg hpairs.le
  · rw [div_le_one hpairs, ← length_scores_of hlength, ← length_scores_of hlength]
    exact tally_le
  · intro labels' scores' hlength' hperm
    have hlabels : labels'.Perm labels := by
      have hmap := hperm.map Prod.fst
      rwa [List.map_fst_zip hlength'.le, List.map_fst_zip hlength.le] at hmap
    rw [auroc_ok hlength' (hlabels.mem_iff.mpr hkept) (hlabels.mem_iff.mpr hrejected),
      tally_perm (scores_of_perm hperm) (scores_of_perm hperm), hlabels.count_eq, hlabels.count_eq]
  · intro f hf
    have hsame : ∀ x ∈ scores_of true labels scores, ∀ y ∈ scores_of false labels scores,
        (y < x ↔ f y < f x) ∧ (y = x ↔ f y = f x) := by
      intro x hx y hy
      have hxy := hf x (mem_scores_of hx) y (mem_scores_of hy)
      have hyx := hf y (mem_scores_of hy) x (mem_scores_of hx)
      rcases lt_trichotomy y x with h | rfl | h
      · exact ⟨iff_of_true h (hyx h), iff_of_false h.ne (hyx h).ne⟩
      · simp
      · exact ⟨iff_of_false h.not_gt (hxy h).not_gt, iff_of_false h.ne' (hxy h).ne'⟩
    rw [auroc_ok (by rw [List.length_map, hlength]) hkept hrejected, scores_of_map, scores_of_map,
      tally_map hsame]
  · have hcount : ∀ label, (labels.map not).count label = labels.count (!label) := fun label => by
      rw [← @length_scores_of scores _ label (by rw [List.length_map, hlength]), scores_of_not,
        length_scores_of hlength]
    have hsplit := tally_swap (scores_of true labels scores) (scores_of false labels scores)
    rw [length_scores_of hlength, length_scores_of hlength] at hsplit
    rw [auroc_ok (by rw [List.length_map, hlength]) (by simpa using hrejected) (by simpa using hkept),
      scores_of_not, scores_of_not, hcount, hcount, Bool.not_true, Bool.not_false]
    congr 1
    rw [eq_sub_iff_add_eq, mul_comm ((labels.count false : ℕ) : ℚ), ← add_div, add_comm, hsplit,
      div_self hpairs.ne']

/-- Of the six pairs the kept scores win four and tie one. -/
theorem auroc_tied : auroc [true, false, true, false, false] [3, 1, 1, 2, 0] = .ok (3 / 4) := by
  obtain ⟨area, harea, hvalue, -⟩ := auroc_pairs [true, false, true, false, false] [3, 1, 1, 2, 0] rfl
    (by decide) (by decide)
  rw [harea, hvalue]
  decide +kernel

end GuardMem
