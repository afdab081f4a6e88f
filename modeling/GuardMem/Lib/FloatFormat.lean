import GuardMem.Lib.Binary64

/-! Rounding to a binary floating-point format of `p` bits with least exponent `emin`, nothing overflowing.

    CORRECT: rounding ends in the format (`format_round`), and what it leaves alone is exactly what the
    format holds (`round_eq_iff`). -/

namespace Lib.FloatFormat

open Lib.Binary64

variable (p : ℕ) (emin : ℤ)

/-- The nonnegative numbers of the format: a significand of `p` bits times a power of two. -/
def Format (q : ℚ) : Prop := ∃ (mant : ℕ) (exp : ℤ), mant < 2 ^ p ∧ emin ≤ exp ∧ q = mant * 2 ^ exp

/-- The exponent at which a positive number keeps `p` bits, or the least one. -/
def unitExp (q : ℚ) : ℤ := max emin (Int.log 2 q + 1 - p)

/-- To the nearest number of the format, a tie to the even significand. -/
def round (q : ℚ) : ℚ := roundEven (q / 2 ^ unitExp p emin q) * 2 ^ unitExp p emin q

variable {p : ℕ} {emin : ℤ} {q : ℚ}

theorem round_zero : round p emin 0 = 0 := by
  have hzero : roundEven 0 = 0 := by exact_mod_cast roundEven_natCast 0
  simp [round, hzero]

/-- A number of the format is a whole number of its units. -/
theorem unitExp_le {mant : ℕ} {exp : ℤ} (h0 : mant ≠ 0) (hmant : mant < 2 ^ p) (hexp : emin ≤ exp) :
    unitExp p emin (mant * 2 ^ exp) ≤ exp := by
  have hpow : (0 : ℚ) < 2 ^ exp := by positivity
  have hpos : (0 : ℚ) < mant * 2 ^ exp := mul_pos (by exact_mod_cast Nat.pos_of_ne_zero h0) hpow
  have hlog : Int.log 2 ((mant : ℚ) * 2 ^ exp) < p + exp := by
    refine (Int.lt_zpow_iff_log_lt (by decide) hpos).mp ?_
    rw [Nat.cast_ofNat, zpow_add₀ (by norm_num), zpow_natCast]
    exact mul_lt_mul_of_pos_right (by exact_mod_cast hmant) hpow
  unfold unitExp
  omega

theorem round_of_format (h : Format p emin q) : round p emin q = q := by
  obtain ⟨mant, exp, hmant, hexp, rfl⟩ := h
  by_cases h0 : mant = 0
  · rw [h0, Nat.cast_zero, zero_mul, round_zero]
  · obtain ⟨k, hk⟩ := Int.le.dest (unitExp_le h0 hmant hexp)
    have hunit : (2 : ℚ) ^ unitExp p emin (mant * 2 ^ exp) ≠ 0 := by positivity
    have hsplit : (2 : ℚ) ^ unitExp p emin (mant * 2 ^ exp) * 2 ^ k = 2 ^ exp := by
      rw [← zpow_natCast, ← zpow_add₀ (by norm_num), hk]
    have hwhole : (mant : ℚ) * 2 ^ exp =
        ((mant * 2 ^ k : ℕ) : ℚ) * 2 ^ unitExp p emin (mant * 2 ^ exp) := by
      rw [Nat.cast_mul, Nat.cast_pow, Nat.cast_ofNat, mul_assoc, mul_comm (2 ^ k), hsplit]
    have hsignificand : (mant : ℚ) * 2 ^ exp / 2 ^ unitExp p emin (mant * 2 ^ exp) = (mant * 2 ^ k : ℕ) := by
      nth_rewrite 1 [hwhole]
      exact mul_div_cancel_right₀ _ hunit
    rw [round, hsignificand, roundEven_natCast, ← hwhole]

/-- The significand has `p` bits, or is the next power of two. -/
theorem significand_le : roundEven (q / 2 ^ unitExp p emin q) ≤ 2 ^ p := by
  have hunit : (0 : ℚ) < 2 ^ unitExp p emin q := by positivity
  have hhigh := Int.lt_zpow_succ_log_self (b := 2) (by decide) q
  rw [Nat.cast_ofNat] at hhigh
  refine roundEven_le ?_
  rw [div_le_iff₀ hunit]
  push_cast
  rw [← zpow_natCast, ← zpow_add₀ (by norm_num)]
  refine hhigh.le.trans (zpow_le_zpow_right₀ (by norm_num) ?_)
  unfold unitExp
  omega

/-- CORRECT: rounding ends in the format. -/
theorem format_round (hp : 0 < p) : Format p emin (round p emin q) := by
  have hleast : emin ≤ unitExp p emin q := le_max_left _ _
  rcases (@significand_le p emin q).lt_or_eq with hlt | hcarry
  · exact ⟨_, _, hlt, hleast, rfl⟩
  · obtain ⟨k, rfl⟩ : ∃ k, p = k + 1 := ⟨p - 1, by omega⟩
    refine ⟨2 ^ k, unitExp (k + 1) emin q + 1, Nat.pow_lt_pow_right (by decide) (Nat.lt_succ_self k),
      by omega, ?_⟩
    rw [round, hcarry, zpow_add₀ (by norm_num), pow_succ]
    push_cast
    ring

/-- CORRECT: what rounding leaves alone is what the format holds. -/
theorem round_eq_iff (hp : 0 < p) : round p emin q = q ↔ Format p emin q :=
  ⟨fun h => h ▸ format_round hp, round_of_format⟩

theorem round_round (hp : 0 < p) : round p emin (round p emin q) = round p emin q :=
  round_of_format (format_round hp)

theorem round_nonneg : 0 ≤ round p emin q := by
  unfold round
  positivity

/-- Rounding does not leave the unit interval: its end is in the format. -/
theorem round_le_one (hp : 0 < p) (hemin : emin ≤ 0) (h1 : q ≤ 1) : round p emin q ≤ 1 := by
  have hlog : Int.log 2 q ≤ 0 := by
    rcases le_or_gt q 0 with h0 | h0
    · rw [Int.log_of_right_le_zero _ h0]
    · simpa using Int.log_mono_right (b := 2) h0 h1
  obtain ⟨k, hk⟩ : ∃ k : ℕ, unitExp p emin q = -(k : ℤ) := by
    refine ⟨(-unitExp p emin q).toNat, ?_⟩
    unfold unitExp
    omega
  have hunit : (0 : ℚ) < 2 ^ k := by positivity
  have hsignificand : roundEven (q / 2 ^ unitExp p emin q) ≤ 2 ^ k := by
    refine roundEven_le ?_
    rw [hk, zpow_neg, zpow_natCast, div_inv_eq_mul]
    push_cast
    exact mul_le_of_le_one_left hunit.le h1
  have hpow : (2 : ℚ) ^ unitExp p emin q = (2 ^ k)⁻¹ := by rw [hk, zpow_neg, zpow_natCast]
  calc round p emin q = roundEven (q / 2 ^ unitExp p emin q) / 2 ^ k := by
        rw [round, div_eq_mul_inv _ ((2 : ℚ) ^ k), ← hpow]
    _ ≤ 1 := by
        rw [div_le_one hunit]
        exact_mod_cast hsignificand

end Lib.FloatFormat
