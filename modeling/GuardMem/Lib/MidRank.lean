import Mathlib.Algebra.Order.Field.Rat
import Mathlib.Algebra.Order.BigOperators.Group.List
import Mathlib.Data.List.ProdSigma
import Mathlib.Data.List.Sort
import Mathlib.Tactic.FieldSimp
import Mathlib.Tactic.Linarith
import Mathlib.Tactic.Ring

/-! Ranks that tied values share, and the Mann-Whitney statistic they sum to.

    `midrank` is the mean of the places a value takes in sorted order and `tally` counts the pairs of two
    samples that the first one wins, a tie as half. CORRECT: the midranks of one sample in the two together
    sum to its tally over the other and what it has in itself (`sum_midrank`). -/

namespace Lib.MidRank

variable {α β : Type*} [LinearOrder α] [LinearOrder β]

/-- The mean of the places, counted from one, of the values equal to `x` in sorted order. -/
def midrank (xs : List α) (x : α) : ℚ := ((xs.countP (· < x) + xs.countP (· ≤ x) + 1 : ℕ) : ℚ) / 2

/-- One for a win, a half for a tie. -/
def beats (x y : α) : ℚ := if y < x then 1 else if y = x then 1 / 2 else 0

/-- What the pairs of two samples come to. -/
def tally (xs ys : List α) : ℚ := (xs.map fun x => (ys.map (beats x)).sum).sum

variable {xs ys zs xs' ys' : List α} {x y : α}

/-! ### Tallies -/

theorem beats_swap (x y : α) : beats x y + beats y x = 1 := by
  unfold beats
  rcases lt_trichotomy x y with h | rfl | h
  · simp [h, h.not_gt, h.ne']
  · norm_num
  · simp [h, h.not_gt, h.ne']

theorem beats_unit (x y : α) : 0 ≤ beats x y ∧ beats x y ≤ 1 := by
  unfold beats
  split_ifs <;> norm_num

@[simp] theorem tally_nil : tally ([] : List α) ys = 0 := rfl

@[simp] theorem tally_cons : tally (x :: xs) ys = (ys.map (beats x)).sum + tally xs ys := rfl

theorem tally_append : tally xs (ys ++ zs) = tally xs ys + tally xs zs := by
  induction xs with
  | nil => simp
  | cons x xs ih =>
      rw [tally_cons, tally_cons, tally_cons, ih, List.map_append, List.sum_append]
      ring

theorem tally_perm (hx : xs.Perm xs') (hy : ys.Perm ys') : tally xs ys = tally xs' ys' := by
  have hinner : (fun x => (ys.map (beats x)).sum) = fun x => (ys'.map (beats x)).sum :=
    funext fun x => (hy.map (beats x)).sum_eq
  rw [tally, tally, hinner]
  exact (hx.map _).sum_eq

/-- Every pair is won by one of the two, or shared. -/
theorem tally_swap (xs ys : List α) : tally xs ys + tally ys xs = xs.length * ys.length := by
  have hcolumn : ∀ {ys : List α} {x : α} {xs : List α},
      tally ys (x :: xs) = (ys.map fun y => beats y x).sum + tally ys xs := by
    intro ys x xs
    induction ys with
    | nil => simp
    | cons y ys ih =>
        rw [tally_cons, tally_cons, ih, List.map_cons, List.sum_cons, List.map_cons, List.sum_cons]
        ring
  have hrow : ∀ {ys : List α} {x : α},
      (ys.map (beats x)).sum + (ys.map fun y => beats y x).sum = ys.length := by
    intro ys x
    induction ys with
    | nil => simp
    | cons y ys ih =>
        simp only [List.map_cons, List.sum_cons, List.length_cons]
        push_cast
        linarith [beats_swap x y]
  induction xs with
  | nil => simp [tally]
  | cons x xs ih =>
      rw [tally_cons, hcolumn, List.length_cons]
      push_cast
      linarith [@hrow ys x]

theorem tally_self (xs : List α) : tally xs xs = (xs.length : ℚ) ^ 2 / 2 := by
  linarith [tally_swap xs xs]

theorem tally_nonneg : 0 ≤ tally xs ys := by
  refine List.sum_nonneg fun t ht => ?_
  obtain ⟨x, -, rfl⟩ := List.mem_map.mp ht
  refine List.sum_nonneg fun b hb => ?_
  obtain ⟨y, -, rfl⟩ := List.mem_map.mp hb
  exact (beats_unit x y).1

theorem tally_le : tally xs ys ≤ xs.length * ys.length := by
  linarith [tally_swap xs ys, @tally_nonneg _ _ ys xs]

/-- An increasing rescaling leaves every comparison as it is. -/
theorem tally_map {f : α → β} (h : ∀ x ∈ xs, ∀ y ∈ ys, (y < x ↔ f y < f x) ∧ (y = x ↔ f y = f x)) :
    tally (xs.map f) (ys.map f) = tally xs ys := by
  rw [tally, List.map_map]
  refine congrArg List.sum (List.map_congr_left fun x hx => ?_)
  rw [Function.comp, List.map_map]
  refine congrArg List.sum (List.map_congr_left fun y hy => ?_)
  obtain ⟨hlt, heq⟩ := h x hx y hy
  simp only [Function.comp, beats, hlt, heq]

/-- The wins and half the ties. -/
theorem tally_eq : tally xs ys = ((xs ×ˢ ys).countP fun p => p.2 < p.1 : ℕ) +
    ((xs ×ˢ ys).countP fun p => p.2 = p.1 : ℕ) / 2 := by
  have hrow : ∀ (x : α) (ys : List α), (ys.map (beats x)).sum =
      ((ys.map (Prod.mk x)).countP fun p => p.2 < p.1 : ℕ) +
        ((ys.map (Prod.mk x)).countP fun p => p.2 = p.1 : ℕ) / 2 := by
    intro x ys
    induction ys with
    | nil => simp
    | cons y ys ih =>
        rw [List.map_cons, List.sum_cons, ih, List.map_cons, List.countP_cons, List.countP_cons, beats]
        by_cases hlt : y < x
        · simp [hlt, hlt.ne]
          ring
        · by_cases heq : y = x
          · simp [heq]
            ring
          · simp [hlt, heq]
  induction xs with
  | nil => simp [List.nil_product]
  | cons x xs ih =>
      rw [tally_cons, ih, List.product_cons, List.countP_append, List.countP_append, hrow]
      push_cast
      ring

/-! ### Ranks -/

/-- A rank is the wins over all values, a tie as half, itself included, and a half. -/
theorem midrank_eq (xs : List α) (x : α) : midrank xs x = (xs.map (beats x)).sum + 1 / 2 := by
  have hsum : (xs.map (beats x)).sum = ((xs.countP (· < x) + xs.countP (· ≤ x) : ℕ) : ℚ) / 2 := by
    induction xs with
    | nil => simp
    | cons y xs ih =>
        rw [List.map_cons, List.sum_cons, ih, List.countP_cons, List.countP_cons, beats]
        by_cases hlt : y < x
        · simp [hlt, hlt.le]
          ring
        · by_cases heq : y = x
          · simp [heq]
            ring
          · simp [hlt, heq, lt_of_le_of_ne (not_lt.mp hlt) (Ne.symm heq)]
  rw [hsum, midrank]
  push_cast
  ring

theorem midrank_perm (h : xs.Perm ys) (x : α) : midrank xs x = midrank ys x := by
  rw [midrank, midrank, h.countP_eq, h.countP_eq]

/-- CORRECT: the ranks of one sample in both sum to its tally over the other, and the ranks it would have
    by itself. -/
theorem sum_midrank (xs ys : List α) : (xs.map (midrank (xs ++ ys))).sum =
    tally xs ys + xs.length * (xs.length + 1) / 2 := by
  have hhalf : (xs.map (midrank (xs ++ ys))).sum = tally xs (xs ++ ys) + xs.length / 2 := by
    have hgen : ∀ zs : List α, (zs.map (midrank (xs ++ ys))).sum = tally zs (xs ++ ys) + zs.length / 2 := by
      intro zs
      induction zs with
      | nil => simp
      | cons z zs ih =>
          rw [List.map_cons, List.sum_cons, ih, midrank_eq, tally_cons, List.length_cons]
          push_cast
          ring
    exact hgen xs
  rw [hhalf, tally_append, tally_self]
  ring

/-- Where a value takes the places from `start` to `stop` of a sorted list, its rank is their mean. -/
theorem midrank_sorted {start stop : ℕ} (hle : start ≤ stop) (hstop : stop ≤ xs.length)
    (hless : ∀ p (hp : p < xs.length), xs[p] < x ↔ p < start)
    (hupto : ∀ p (hp : p < xs.length), xs[p] ≤ x ↔ p < stop) : midrank xs x = (start + stop + 1 : ℕ) / 2 := by
  have hcount : ∀ (P : α → Bool) (k : ℕ), k ≤ xs.length → (∀ p (hp : p < xs.length), P xs[p] = true ↔ p < k) →
      xs.countP P = k := by
    intro P k hk hP
    have hfront : (xs.take k).countP P = k := by
      rw [List.countP_eq_length.mpr, List.length_take, Nat.min_eq_left hk]
      intro y hy
      obtain ⟨p, hp, rfl⟩ := List.getElem_of_mem hy
      rw [List.length_take] at hp
      rw [List.getElem_take]
      exact (hP p (by omega)).mpr (by omega)
    have hback : (xs.drop k).countP P = 0 := by
      refine List.countP_eq_zero.mpr fun y hy hPy => ?_
      obtain ⟨p, hp, rfl⟩ := List.getElem_of_mem hy
      rw [List.length_drop] at hp
      rw [List.getElem_drop] at hPy
      have := (hP (k + p) (by omega)).mp hPy
      omega
    rw [← List.take_append_drop k xs, List.countP_append, hfront, hback, Nat.add_zero]
  rw [midrank, hcount _ start (hle.trans hstop) (by simpa using hless),
    hcount _ stop hstop (by simpa using hupto)]

end Lib.MidRank
