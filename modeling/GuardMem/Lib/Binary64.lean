import GuardMem.Lib.Numeral
import Mathlib.Algebra.Order.Field.Power
import Mathlib.Algebra.Order.Floor.Semiring
import Mathlib.Data.Int.Log
import Mathlib.Data.Rat.Floor
import Mathlib.Tactic.FieldSimp
import Mathlib.Tactic.Linarith

/-! Finite IEEE 754 doubles: correct rounding and the shortest decimal that reads back.

    CORRECT: a double's own value rounds to it (`nearest_magnitude`), and the digits `shortest` finds
    read back as the double they were made from (`reads_shortest`). -/

namespace Lib

/-- What the significand and the exponent of a double may be: subnormal, or normal. -/
def Representable (mant : ℕ) (exp : ℤ) : Prop :=
  (mant < 2 ^ 52 ∧ exp = -1074) ∨ (2 ^ 52 ≤ mant ∧ mant < 2 ^ 53 ∧ -1074 ≤ exp ∧ exp ≤ 971)

instance (mant : ℕ) (exp : ℤ) : Decidable (Representable mant exp) :=
  inferInstanceAs (Decidable (_ ∨ _))

/-- A finite double: a sign, and `mant * 2 ^ exp`. -/
structure Binary64 where
  neg : Bool
  mant : ℕ
  exp : ℤ
  representable : Representable mant exp
  deriving DecidableEq

namespace Binary64

/-- The absolute value. -/
def magnitude (x : Binary64) : ℚ := x.mant * 2 ^ x.exp

/-! ### Rounding -/

/-- To the nearest integer, a tie to the even one. -/
def roundEven (q : ℚ) : ℕ :=
  if q - ⌊q⌋₊ < 1 / 2 then ⌊q⌋₊
  else if 1 / 2 < q - ⌊q⌋₊ then ⌊q⌋₊ + 1
  else if ⌊q⌋₊ % 2 = 0 then ⌊q⌋₊ else ⌊q⌋₊ + 1

/-- The exponent at which a positive number keeps 53 bits, or the least one. -/
def roundExp (q : ℚ) : ℤ := max (-1074) (Int.log 2 q - 52)

def make (neg : Bool) (mant : ℕ) (exp : ℤ) : Option Binary64 :=
  if h : Representable mant exp then some ⟨neg, mant, exp, h⟩ else none

/-- The double nearest to a magnitude; `none` is an infinity. -/
def nearest (neg : Bool) (q : ℚ) : Option Binary64 :=
  if q = 0 then make neg 0 (-1074)
  else if roundEven (q / 2 ^ roundExp q) = 2 ^ 53 then make neg (2 ^ 52) (roundExp q + 1)
  else make neg (roundEven (q / 2 ^ roundExp q)) (roundExp q)

theorem roundEven_natCast (m : ℕ) : roundEven (m : ℚ) = m := by
  simp [roundEven]

theorem make_self (x : Binary64) : make x.neg x.mant x.exp = some x := dif_pos x.representable

theorem make_neg {neg : Bool} {mant : ℕ} {exp : ℤ} {x : Binary64} (h : make neg mant exp = some x) :
    x.neg = neg := by
  unfold make at h
  split at h
  · rw [← Option.some.inj h]
  · cases h

/-- Rounding keeps the sign. -/
theorem nearest_neg {neg : Bool} {q : ℚ} {x : Binary64} (h : nearest neg q = some x) : x.neg = neg := by
  unfold nearest at h
  split_ifs at h <;> exact make_neg h

theorem magnitude_eq_zero {x : Binary64} : x.magnitude = 0 ↔ x.mant = 0 := by
  have h : (2 : ℚ) ^ x.exp ≠ 0 := by positivity
  simp [magnitude, h]

theorem magnitude_nonneg (x : Binary64) : 0 ≤ x.magnitude := by
  unfold magnitude
  positivity

/-- A double's own exponent is the one its value is rounded at. -/
theorem roundExp_magnitude {x : Binary64} (h : x.mant ≠ 0) : roundExp x.magnitude = x.exp := by
  have hpos : 0 < x.magnitude :=
    lt_of_le_of_ne x.magnitude_nonneg (Ne.symm fun h0 => h (magnitude_eq_zero.mp h0))
  have hexp : (0 : ℚ) < 2 ^ x.exp := by positivity
  have hlt : ∀ {b : ℕ}, x.mant < 2 ^ b → Int.log 2 x.magnitude < b + x.exp := by
    intro b hb
    refine (Int.lt_zpow_iff_log_lt (by decide) hpos).mp ?_
    rw [Nat.cast_ofNat, zpow_add₀ (by norm_num), zpow_natCast]
    exact mul_lt_mul_of_pos_right (by exact_mod_cast hb) hexp
  unfold roundExp
  rcases x.representable with ⟨hm, he⟩ | ⟨hlo, hhi, he, -⟩
  · have hlog := hlt hm
    push_cast at hlog
    omega
  · have hlog := hlt hhi
    have hle : (52 + x.exp : ℤ) ≤ Int.log 2 x.magnitude := by
      refine (Int.zpow_le_iff_le_log (by decide) hpos).mp ?_
      rw [Nat.cast_ofNat, zpow_add₀ (by norm_num)]
      refine mul_le_mul_of_nonneg_right ?_ hexp.le
      exact_mod_cast hlo
    push_cast at hlog
    omega

/-- CORRECT: a double's own value rounds to it. -/
theorem nearest_magnitude (x : Binary64) : nearest x.neg x.magnitude = some x := by
  unfold nearest
  by_cases h : x.mant = 0
  · have hexp : x.exp = -1074 := by
      rcases x.representable with ⟨-, he⟩ | ⟨hlo, -⟩
      · exact he
      · omega
    rw [if_pos (magnitude_eq_zero.mpr h), ← h, ← hexp, make_self]
  · have hne : ¬ x.magnitude = 0 := fun h0 => h (magnitude_eq_zero.mp h0)
    have hq : x.magnitude / 2 ^ x.exp = x.mant := by
      have h2 : (2 : ℚ) ^ x.exp ≠ 0 := by positivity
      rw [magnitude, mul_div_cancel_right₀ _ h2]
    have hbig : x.mant ≠ 2 ^ 53 := by
      rcases x.representable with ⟨hm, -⟩ | ⟨-, hm, -⟩ <;> omega
    rw [if_neg hne, roundExp_magnitude h, hq, roundEven_natCast, if_neg hbig, make_self]

/-! ### The shortest digits that read back -/

/-- The decimal `digits * 10 ^ scale` reads back as `x`. -/
def Reads (x : Binary64) (digits : ℕ) (scale : ℤ) : Prop :=
  nearest x.neg ((digits : ℚ) * 10 ^ scale) = some x

instance (x : Binary64) (digits : ℕ) (scale : ℤ) : Decidable (x.Reads digits scale) :=
  inferInstanceAs (Decidable (_ = _))

/-- The position of the decimal point: the magnitude is below `10 ^ point`, by less than a digit. -/
def point (x : Binary64) : ℤ := Int.log 10 x.magnitude + 1

/-- The digits of the nearer of two neighbours that read back, a tie to the even one. -/
def closest (x : Binary64) (scale : ℤ) : Option ℕ :=
  let t := x.magnitude / 10 ^ scale
  let low := ⌊t⌋₊
  match decide (x.Reads low scale), decide (x.Reads (low + 1) scale) with
  | true, true => some (roundEven t)
  | true, false => some low
  | false, true => some (low + 1)
  | false, false => none

/-- A number of digits at which a double's value is exact. -/
def exactly (x : Binary64) : ℕ := (x.point + max 0 (-x.exp)).toNat

/-- The fewest digits that read back, and the power of ten of the last one. -/
def shortest (x : Binary64) : Option (ℕ × ℤ) :=
  (List.range x.exactly).findSome? fun i : ℕ =>
    (x.closest (x.point - (i + 1))).map fun digits =>
      if digits = 10 ^ (i + 1) then (1, x.point) else (digits, x.point - (i + 1))

/-- `float.__repr__`: scientific from `1e16` up and below `1e-4`, positional with at least one digit
    after the point between. -/
def repr (x : Binary64) : Numeral :=
  match (if x.mant = 0 then none else x.shortest) with
  | none => ⟨x.neg, 0, 1, none⟩
  | some (digits, scale) =>
      let decpt := scale + (Nat.toDigits 10 digits).length
      if decpt ≤ -4 ∨ 16 < decpt then
        ⟨x.neg, digits, (Nat.toDigits 10 digits).length - 1, some (decpt - 1)⟩
      else
        let places := max 1 (-scale).toNat
        ⟨x.neg, digits * 10 ^ (scale + places).toNat, places, none⟩

/-! ### What the digits are -/

variable {x : Binary64}

theorem magnitude_pos (h : x.mant ≠ 0) : 0 < x.magnitude :=
  lt_of_le_of_ne x.magnitude_nonneg (Ne.symm fun h0 => h (magnitude_eq_zero.mp h0))

theorem roundEven_cases (q : ℚ) : roundEven q = ⌊q⌋₊ ∨ roundEven q = ⌊q⌋₊ + 1 := by
  unfold roundEven
  split_ifs <;> simp

/-- What `closest` chooses reads back, and is a neighbour of the exact value. -/
theorem closest_some {scale : ℤ} {d : ℕ} (h : x.closest scale = some d) :
    x.Reads d scale ∧ (d = ⌊x.magnitude / 10 ^ scale⌋₊ ∨ d = ⌊x.magnitude / 10 ^ scale⌋₊ + 1) := by
  unfold closest at h
  dsimp only at h
  split at h
  · next hlow hhigh =>
      obtain rfl := Option.some.inj h
      rcases roundEven_cases (x.magnitude / 10 ^ scale) with he | he
      · exact ⟨he ▸ of_decide_eq_true hlow, Or.inl he⟩
      · exact ⟨he ▸ of_decide_eq_true hhigh, Or.inr he⟩
  · next hlow _ =>
      obtain rfl := Option.some.inj h
      exact ⟨of_decide_eq_true hlow, Or.inl rfl⟩
  · next _ hhigh =>
      obtain rfl := Option.some.inj h
      exact ⟨of_decide_eq_true hhigh, Or.inr rfl⟩
  · cases h

theorem closest_isSome {scale : ℤ} (h : x.Reads ⌊x.magnitude / 10 ^ scale⌋₊ scale) :
    (x.closest scale).isSome := by
  unfold closest
  dsimp only
  rw [decide_eq_true h]
  split <;> simp_all

/-- The magnitude lies in the decade that `point` names. -/
theorem point_spec (h : x.mant ≠ 0) : (10 : ℚ) ^ (x.point - 1) ≤ x.magnitude ∧
    x.magnitude < 10 ^ x.point := by
  have hlow := Int.zpow_log_le_self (b := 10) (by decide) (magnitude_pos h)
  have hhigh := Int.lt_zpow_succ_log_self (b := 10) (by decide) x.magnitude
  rw [Nat.cast_ofNat] at hlow hhigh
  exact ⟨by rw [point, add_sub_cancel_right]; exact hlow, hhigh⟩

/-- At `n` digits the floor has `n` digits. -/
theorem floor_digits (h : x.mant ≠ 0) (i : ℕ) :
    10 ^ i ≤ ⌊x.magnitude / 10 ^ (x.point - (i + 1))⌋₊ ∧
      ⌊x.magnitude / 10 ^ (x.point - (i + 1))⌋₊ < 10 ^ (i + 1) := by
  obtain ⟨hlow, hhigh⟩ := point_spec h
  have hs : (0 : ℚ) < 10 ^ (x.point - (i + 1)) := by positivity
  constructor
  · refine Nat.le_floor ?_
    rw [le_div_iff₀ hs]
    refine le_trans (le_of_eq ?_) hlow
    push_cast
    rw [← zpow_natCast, ← zpow_add₀ (by norm_num)]
    congr 1
    ring
  · refine (Nat.floor_lt (div_nonneg x.magnitude_nonneg hs.le)).mpr ?_
    rw [div_lt_iff₀ hs]
    refine lt_of_lt_of_eq hhigh ?_
    push_cast
    rw [← zpow_natCast, ← zpow_add₀ (by norm_num)]
    congr 1
    push_cast
    ring

/-- What `shortest` finds reads back, and its digits stand where the magnitude says, or it is the
    next power of ten. -/
theorem shortest_spec {d : ℕ} {s : ℤ} (h : x.mant ≠ 0) (hs : x.shortest = some (d, s)) :
    x.Reads d s ∧ 0 < d ∧ s ≤ x.point ∧ x.point - x.exactly ≤ s ∧
      (s + (Nat.toDigits 10 d).length = x.point ∨ d = 1 ∧ s = x.point) := by
  obtain ⟨i, hi, hfound⟩ := List.exists_of_findSome?_eq_some hs
  obtain ⟨e, hclose, hes⟩ := Option.map_eq_some_iff.mp hfound
  obtain ⟨hread, hdig⟩ := closest_some hclose
  obtain ⟨hlow, hhigh⟩ := floor_digits h i
  have hin : (i : ℤ) + 1 ≤ x.exactly := by exact_mod_cast List.mem_range.mp hi
  split at hes
  · next hten =>
      obtain ⟨rfl, rfl⟩ := Prod.mk.inj hes
      refine ⟨?_, one_pos, le_refl _, by omega, Or.inr ⟨rfl, rfl⟩⟩
      rw [Reads, hten] at hread
      rw [Reads, ← hread]
      congr 1
      push_cast
      rw [← zpow_natCast, ← zpow_add₀ (by norm_num), one_mul]
      congr 1
      push_cast
      ring
  · next hten =>
      obtain ⟨rfl, rfl⟩ := Prod.mk.inj hes
      have hge : 10 ^ i ≤ e := by rcases hdig with rfl | rfl <;> omega
      have hlt : e < 10 ^ (i + 1) := by rcases hdig with rfl | rfl <;> omega
      have hpow : 0 < 10 ^ i := by positivity
      refine ⟨hread, by omega, by omega, by omega, Or.inl ?_⟩
      have hle : (Nat.toDigits 10 e).length ≤ i + 1 :=
        (Nat.length_toDigits_le_iff (by decide) (Nat.succ_pos i)).mpr hlt
      have hgt : i < (Nat.toDigits 10 e).length := by
        rcases Nat.eq_zero_or_pos i with rfl | hpos
        · exact Nat.length_toDigits_pos
        · by_contra hnot
          have := (Nat.length_toDigits_le_iff (by decide) hpos).mp (not_lt.mp hnot)
          omega
      omega

/-- A decimal that is exactly the value reads back. -/
theorem reads_exact {scale : ℤ} {N : ℕ} (hN : x.magnitude = N * 10 ^ scale) :
    x.Reads ⌊x.magnitude / 10 ^ scale⌋₊ scale := by
  have hs : (10 : ℚ) ^ scale ≠ 0 := by positivity
  have hfloor : ⌊x.magnitude / 10 ^ scale⌋₊ = N := by
    rw [hN, mul_div_cancel_right₀ _ hs, Nat.floor_natCast]
  rw [Reads, hfloor, ← hN, nearest_magnitude]

/-- With digits down to the last binary place the value is exact. -/
theorem exact_digits (h : x.mant ≠ 0) :
    1 ≤ x.exactly ∧ ∃ N : ℕ, x.magnitude = N * 10 ^ (x.point - x.exactly) := by
  have hone : (1 : ℚ) ≤ x.mant := by exact_mod_cast Nat.one_le_iff_ne_zero.mpr h
  obtain ⟨-, hhigh⟩ := point_spec h
  have hpow : ∀ {e : ℤ}, (10 : ℚ) ^ e ≤ x.magnitude → e < x.point := fun he =>
    (zpow_lt_zpow_iff_right₀ (by norm_num)).mp (he.trans_lt hhigh)
  by_cases hexp : 0 ≤ x.exp
  · have hpoint : 0 < x.point := by
      refine hpow ?_
      rw [zpow_zero, magnitude]
      exact one_le_mul_of_one_le_of_one_le hone (one_le_zpow₀ (by norm_num) hexp)
    have hz : x.point - x.exactly = 0 := by unfold exactly; omega
    refine ⟨by unfold exactly; omega, x.mant * 2 ^ x.exp.toNat, ?_⟩
    rw [hz, zpow_zero, mul_one, magnitude]
    push_cast
    rw [← zpow_natCast, Int.toNat_of_nonneg hexp]
  · have hval : x.magnitude = ((x.mant * 5 ^ (-x.exp).toNat : ℕ) : ℚ) * 10 ^ x.exp := by
      have hten : (10 : ℚ) ^ x.exp = 5 ^ x.exp * 2 ^ x.exp := by
        rw [← mul_zpow]
        norm_num
      have hfive : (5 : ℚ) ^ (-x.exp) * 5 ^ x.exp = 1 := by
        rw [← zpow_add₀ (by norm_num), neg_add_cancel, zpow_zero]
      push_cast
      rw [← zpow_natCast, Int.toNat_of_nonneg (by omega), hten, magnitude]
      calc (x.mant : ℚ) * 2 ^ x.exp = x.mant * (5 ^ (-x.exp) * 5 ^ x.exp) * 2 ^ x.exp := by
              rw [hfive, mul_one]
        _ = x.mant * 5 ^ (-x.exp) * (5 ^ x.exp * 2 ^ x.exp) := by ring
    have hpoint : x.exp < x.point := by
      refine hpow ?_
      rw [hval]
      refine le_mul_of_one_le_left (by positivity) ?_
      push_cast
      exact one_le_mul_of_one_le_of_one_le hone (one_le_pow₀ (by norm_num))
    have hz : x.point - x.exactly = x.exp := by unfold exactly; omega
    exact ⟨by unfold exactly; omega, _, hz ▸ hval⟩

/-- CORRECT: every nonzero double has a shortest decimal. -/
theorem shortest_isSome (h : x.mant ≠ 0) : x.shortest.isSome := by
  obtain ⟨hpos, N, hN⟩ := exact_digits h
  obtain ⟨i, hi⟩ : ∃ i, x.exactly = i + 1 := ⟨x.exactly - 1, by omega⟩
  have hscale : x.point - x.exactly = x.point - (i + 1) := by rw [hi]; push_cast; ring
  have hclose := closest_isSome (reads_exact (hscale ▸ hN))
  rw [shortest, List.findSome?_isSome_iff]
  exact ⟨i, List.mem_range.mpr (by omega), by rwa [Option.isSome_map]⟩

/-! ### `repr` -/

/-- `1e16`, the least double printed with an exponent. -/
def tenToSixteen (neg : Bool) : Binary64 where
  neg := neg
  mant := 5 * 10 ^ 15
  exp := 1
  representable := by decide

theorem magnitude_tenToSixteen (neg : Bool) : (tenToSixteen neg).magnitude = 10 ^ 16 := by
  simp only [magnitude, tenToSixteen]
  norm_num

theorem repr_zero (h : x.mant = 0) : x.repr = ⟨x.neg, 0, 1, none⟩ := by
  simp [repr, h]

/-- A nonzero double's text is scientific or positional, of digits that read back. -/
theorem repr_spec (h : x.mant ≠ 0) : ∃ d s, 0 < d ∧ x.Reads d s ∧ x.repr.neg = x.neg ∧
    x.repr.magnitude = d * 10 ^ s ∧
    (x.magnitude < 10 ^ 16 → 0 < (x.repr.places : ℤ) - x.repr.exp.getD 0) ∧
    (10 ^ 16 ≤ x.magnitude → (x.repr.places : ℤ) - x.repr.exp.getD 0 ≤ 0) := by
  obtain ⟨⟨d, s⟩, hs⟩ := Option.isSome_iff_exists.mp (shortest_isSome h)
  obtain ⟨hread, hd, hsp, hps, hpoint⟩ := shortest_spec h hs
  obtain ⟨hlow, hhigh⟩ := point_spec h
  have hlen : 0 < (Nat.toDigits 10 d).length := Nat.length_toDigits_pos
  -- below `1e16` the point is too, since `1e16` itself reads back as another double
  have hsmall : x.magnitude < 10 ^ 16 → s + (Nat.toDigits 10 d).length ≤ 16 := by
    intro hlt
    have hp : x.point - 1 < 16 := (zpow_lt_zpow_iff_right₀ (by norm_num)).mp
      (hlow.trans_lt (by exact_mod_cast hlt))
    rcases hpoint with hpoint | ⟨rfl, rfl⟩
    · omega
    · rw [show (Nat.toDigits 10 1).length = 1 from rfl]
      by_contra hgt
      have hp16 : x.point = 16 := by push_cast at hgt; omega
      have hself := nearest_magnitude (tenToSixteen x.neg)
      rw [Reads, hp16, Nat.cast_one, one_mul] at hread
      rw [magnitude_tenToSixteen] at hself
      have hx : tenToSixteen x.neg = x := Option.some.inj (hself.symm.trans (by exact_mod_cast hread))
      rw [← hx, magnitude_tenToSixteen] at hlt
      exact lt_irrefl _ hlt
  have hbig : 10 ^ 16 ≤ x.magnitude → 16 < s + (Nat.toDigits 10 d).length ∧ 0 ≤ s := by
    intro hge
    have hp : 16 < x.point := (zpow_lt_zpow_iff_right₀ (by norm_num)).mp
      (lt_of_le_of_lt (by exact_mod_cast hge) hhigh)
    have hexp : 0 ≤ x.exp := by
      by_contra hneg
      have hm : (x.mant : ℚ) < 2 ^ 53 := by
        rcases x.representable with ⟨hm, -⟩ | ⟨-, hm, -⟩ <;> exact_mod_cast (by omega)
      have hle : x.magnitude ≤ x.mant := by
        unfold magnitude
        exact mul_le_of_le_one_right (by positivity)
          (zpow_le_one_of_nonpos₀ (by norm_num) (by omega))
      have hcap : (2 : ℚ) ^ 53 < 10 ^ 16 := by norm_num
      exact absurd (hge.trans (hle.trans hm.le)) (not_le.mpr hcap)
    have hexact : (x.exactly : ℤ) = x.point := by unfold exactly; omega
    rcases hpoint with hpoint | ⟨rfl, rfl⟩
    · omega
    · rw [show (Nat.toDigits 10 1).length = 1 from rfl]
      omega
  refine ⟨d, s, hd, hread, ?_⟩
  simp only [repr, if_neg h, hs]
  split
  · next hsci =>
      refine ⟨rfl, ?_, fun hlt => ?_, fun hge => ?_⟩
      · simp only [Numeral.magnitude, Option.getD_some]
        congr 2
        omega
      · have := hsmall hlt
        simp only [Option.getD_some]
        omega
      · have := hbig hge
        simp only [Option.getD_some]
        omega
  · next hpos =>
      refine ⟨rfl, ?_, fun _ => ?_, fun hge => ?_⟩
      · simp only [Numeral.magnitude, Option.getD_none]
        push_cast
        rw [mul_assoc, ← zpow_natCast, ← zpow_add₀ (by norm_num), Int.toNat_of_nonneg (by omega)]
        congr 2
        ring
      · simp only [Option.getD_none]
        omega
      · have := hbig hge
        omega

/-- CORRECT: `repr` reads back as the double it is of, its sign included. -/
theorem nearest_repr (x : Binary64) : nearest x.repr.neg x.repr.magnitude = some x := by
  by_cases h : x.mant = 0
  · have hzero : x.magnitude = 0 := magnitude_eq_zero.mpr h
    have hrepr : x.repr.magnitude = 0 := by simp [repr_zero h, Numeral.magnitude]
    rw [hrepr, ← hzero, repr_zero h]
    exact nearest_magnitude x
  · obtain ⟨d, s, -, hread, hneg, hmag, -⟩ := repr_spec h
    rw [hneg, hmag]
    exact hread

theorem repr_injective : Function.Injective repr := fun x y h =>
  Option.some.inj (by rw [← nearest_repr x, h, nearest_repr])

/-- The text of a double shows that it is one. -/
theorem repr_fractional (x : Binary64) : x.repr.exp = none → 0 < x.repr.places := by
  unfold repr
  split
  · simp
  · dsimp only
    split
    · simp
    · simp

/-- The text has no sign without a digit other than zero, but for negative zero. -/
theorem repr_neg {x : Binary64} (h : x.neg = true → x.mant ≠ 0) (hneg : x.repr.neg = true) :
    x.repr.mant ≠ 0 := by
  by_cases h0 : x.mant = 0
  · rw [repr_zero h0] at hneg
    exact absurd h0 (h hneg)
  · obtain ⟨d, s, hd, -, -, hmag, -⟩ := repr_spec h0
    intro hm
    have hpos : (0 : ℚ) < d * 10 ^ s := by positivity
    rw [← hmag, Numeral.magnitude, hm, Nat.cast_zero, zero_mul] at hpos
    exact lt_irrefl _ hpos

/-- Written as an exact decimal, a double keeps a digit after the point exactly below `1e16`. -/
theorem repr_positional_places (x : Binary64) :
    x.repr.positional.places = 0 ↔ 10 ^ 16 ≤ x.magnitude := by
  simp only [Numeral.positional]
  by_cases h : x.mant = 0
  · rw [repr_zero h, magnitude_eq_zero.mpr h]
    simp
  · obtain ⟨d, s, -, -, -, -, hsmall, hbig⟩ := repr_spec h
    constructor
    · intro hz
      by_contra hlt
      have := hsmall (not_le.mp hlt)
      omega
    · intro hge
      have := hbig hge
      omega

/-! ### How close rounding comes -/

theorem roundEven_close {q : ℚ} (h : 0 ≤ q) : |(roundEven q : ℚ) - q| ≤ 1 / 2 := by
  have hlow := Nat.floor_le h
  have hhigh := Nat.lt_floor_add_one q
  rw [abs_le]
  unfold roundEven
  split_ifs <;> push_cast <;> constructor <;> linarith

theorem make_magnitude {neg : Bool} {mant : ℕ} {exp : ℤ} {x : Binary64} (h : make neg mant exp = some x) :
    x.magnitude = mant * 2 ^ exp := by
  unfold make at h
  split at h
  · rw [← Option.some.inj h]
    rfl
  · cases h

/-- What is rounded is the significand, at the exponent of the number. -/
theorem nearest_magnitude_eq {neg : Bool} {q : ℚ} {x : Binary64} (h : nearest neg q = some x) :
    x.magnitude = roundEven (q / 2 ^ roundExp q) * 2 ^ roundExp q := by
  unfold nearest at h
  split_ifs at h with h0 hcarry
  · have hzero : roundEven 0 = 0 := by exact_mod_cast roundEven_natCast 0
    rw [make_magnitude h, h0, zero_div, hzero]
    simp
  · rw [make_magnitude h, hcarry, zpow_add₀ (by norm_num)]
    push_cast
    ring
  · exact make_magnitude h

/-- CORRECT: rounding is off by half a unit in the last place at most. -/
theorem nearest_close {neg : Bool} {q : ℚ} {x : Binary64} (hq : 0 ≤ q) (h : nearest neg q = some x) :
    |x.magnitude - q| ≤ 2 ^ roundExp q / 2 := by
  have hunit : (0 : ℚ) < 2 ^ roundExp q := by positivity
  have hclose := roundEven_close (div_nonneg hq hunit.le)
  calc |x.magnitude - q|
      = |(roundEven (q / 2 ^ roundExp q) : ℚ) - q / 2 ^ roundExp q| * 2 ^ roundExp q := by
        rw [nearest_magnitude_eq h, ← abs_of_pos hunit, ← abs_mul, abs_of_pos hunit, sub_mul,
          div_mul_cancel₀ _ hunit.ne']
    _ ≤ 1 / 2 * 2 ^ roundExp q := mul_le_mul_of_nonneg_right hclose hunit.le
    _ = 2 ^ roundExp q / 2 := by ring

theorem roundExp_unit {q : ℚ} (h1 : q ≤ 1) : roundExp q ≤ -52 := by
  have hlog : Int.log 2 q ≤ 0 := by
    rcases le_or_gt q 0 with h0 | h0
    · rw [Int.log_of_right_le_zero _ h0]
    · simpa using Int.log_mono_right (b := 2) h0 h1
  unfold roundExp
  omega

/-- The significand keeps 53 bits, all of them unless the exponent is the least one. -/
theorem significand_bounds {q : ℚ} (h0 : 0 < q) :
    q / 2 ^ roundExp q < 2 ^ 53 ∧ (roundExp q ≠ -1074 → 2 ^ 52 ≤ q / 2 ^ roundExp q) := by
  have hunit : (0 : ℚ) < 2 ^ roundExp q := by positivity
  have hlow := Int.zpow_log_le_self (b := 2) (by decide) h0
  have hhigh := Int.lt_zpow_succ_log_self (b := 2) (by decide) q
  rw [Nat.cast_ofNat] at hlow hhigh
  constructor
  · rw [div_lt_iff₀ hunit, ← zpow_natCast, ← zpow_add₀ (by norm_num)]
    refine hhigh.trans_le (zpow_le_zpow_right₀ (by norm_num) ?_)
    unfold roundExp
    push_cast
    omega
  · intro hexp
    rw [le_div_iff₀ hunit, ← zpow_natCast, ← zpow_add₀ (by norm_num)]
    refine le_trans (zpow_le_zpow_right₀ (by norm_num) ?_) hlow
    unfold roundExp at hexp ⊢
    push_cast
    omega

/-- Nothing in the unit interval overflows. -/
theorem nearest_isSome {neg : Bool} {q : ℚ} (h0 : 0 ≤ q) (h1 : q ≤ 1) : (nearest neg q).isSome := by
  have hmake : ∀ {m : ℕ} {e : ℤ}, Representable m e → (make neg m e).isSome := by
    intro m e h
    rw [make, dif_pos h]
    rfl
  have hexp := roundExp_unit h1
  have hleast : -1074 ≤ roundExp q := le_max_left _ _
  unfold nearest
  split_ifs with hzero hcarry
  · exact hmake (Or.inl ⟨by norm_num, rfl⟩)
  · exact hmake (Or.inr ⟨le_rfl, by norm_num, by omega, by omega⟩)
  · obtain ⟨hlt, hge⟩ := significand_bounds (lt_of_le_of_ne h0 (Ne.symm hzero))
    have hfloor : ⌊q / 2 ^ roundExp q⌋₊ < 2 ^ 53 := by
      exact_mod_cast (Nat.floor_lt (by positivity)).mpr (by exact_mod_cast hlt)
    have hsig := roundEven_cases (q / 2 ^ roundExp q)
    refine hmake ?_
    by_cases hsub : roundExp q = -1074
    · rcases lt_or_ge (roundEven (q / 2 ^ roundExp q)) (2 ^ 52) with hm | hm
      · exact Or.inl ⟨hm, hsub⟩
      · exact Or.inr ⟨hm, by omega, hleast, by omega⟩
    · have hfull : 2 ^ 52 ≤ ⌊q / 2 ^ roundExp q⌋₊ := Nat.le_floor (by exact_mod_cast hge hsub)
      exact Or.inr ⟨by omega, by omega, hleast, by omega⟩

theorem roundEven_le {q : ℚ} {n : ℕ} (h : q ≤ n) : roundEven q ≤ n := by
  rcases roundEven_cases q with hr | hr
  · rw [hr]
    exact Nat.floor_le_of_le h
  · have hhalf : 1 / 2 ≤ q - ⌊q⌋₊ := by
      by_contra hlow
      rw [roundEven, if_pos (not_le.mp hlow)] at hr
      omega
    have hfloor : (⌊q⌋₊ : ℚ) < n := by linarith
    have : ⌊q⌋₊ < n := by exact_mod_cast hfloor
    omega

/-- Rounding does not leave the unit interval: its end is a double. -/
theorem nearest_le_one {neg : Bool} {q : ℚ} {x : Binary64} (h1 : q ≤ 1) (h : nearest neg q = some x) :
    x.magnitude ≤ 1 := by
  obtain ⟨k, hk⟩ : ∃ k : ℕ, roundExp q = -(k : ℤ) := by
    have hexp := roundExp_unit h1
    exact ⟨(-roundExp q).toNat, by omega⟩
  have hunit : (0 : ℚ) < 2 ^ k := by positivity
  have hsig : roundEven (q / 2 ^ roundExp q) ≤ 2 ^ k := by
    refine roundEven_le ?_
    rw [hk, zpow_neg, zpow_natCast, div_inv_eq_mul]
    push_cast
    exact mul_le_of_le_one_left hunit.le h1
  have hvalue : x.magnitude = roundEven (q / 2 ^ roundExp q) / 2 ^ k := by
    have hpow : (2 : ℚ) ^ roundExp q = (2 ^ k)⁻¹ := by rw [hk, zpow_neg, zpow_natCast]
    rw [nearest_magnitude_eq h, div_eq_mul_inv _ ((2 : ℚ) ^ k), ← hpow]
  rw [hvalue, div_le_one hunit]
  exact_mod_cast hsig

/-- CORRECT: a number of the unit interval is rounded to within `2 ^ -53`. -/
theorem nearest_unit {neg : Bool} {q : ℚ} (h0 : 0 ≤ q) (h1 : q ≤ 1) :
    ∃ x, nearest neg q = some x ∧ |x.magnitude - q| ≤ 1 / 2 ^ 53 := by
  obtain ⟨x, hx⟩ := Option.isSome_iff_exists.mp (@nearest_isSome neg q h0 h1)
  refine ⟨x, hx, (nearest_close h0 hx).trans ?_⟩
  have hunit : (2 : ℚ) ^ roundExp q ≤ 2 ^ (-52 : ℤ) :=
    zpow_le_zpow_right₀ (by norm_num) (roundExp_unit h1)
  exact (div_le_div_of_nonneg_right hunit zero_le_two).trans_eq (by norm_num)

end Binary64

end Lib
