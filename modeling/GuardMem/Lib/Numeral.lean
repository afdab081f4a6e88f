import Mathlib.Algebra.Order.Field.Power
import Mathlib.Algebra.Order.Field.Rat
import Mathlib.Tactic.Common
import Mathlib.Tactic.NormNum
import Mathlib.Tactic.Positivity
import Mathlib.Tactic.Ring

/-! Decimal numerals: a sign, digits, a decimal point and perhaps an exponent, and the text of each.

    CORRECT: wherever no digit, point or exponent follows, the text determines the numeral and where
    it ends (`text_inj`). -/

namespace Lib

/-- The digits of `mant`, the last `places` of them after the point, and the power of ten after an
    `e`. -/
structure Numeral where
  neg : Bool
  mant : ℕ
  places : ℕ
  exp : Option ℤ
  deriving DecidableEq

namespace Numeral

/-- An integer. -/
def ofInt (i : ℤ) : Numeral := ⟨decide (i < 0), i.natAbs, 0, none⟩

/-- The number named, without its sign. -/
def magnitude (n : Numeral) : ℚ := n.mant * 10 ^ (n.exp.getD 0 - n.places)

/-- The last digits, zeros in front up to the width. -/
def padded (width f : ℕ) : List Char := (Nat.toDigits 10 f).leftpad width '0'

/-- `e+16`, `e-07`: a sign, then at least two digits. -/
def expText : Option ℤ → List Char
  | none => []
  | some e => 'e' :: (if e < 0 then '-' else '+') :: padded 2 e.natAbs

/-- `.` and the last digits, if there are any. -/
def fracText (places f : ℕ) : List Char := if places = 0 then [] else '.' :: padded places f

def signText (neg : Bool) : List Char := if neg then ['-'] else []

/-- The numeral as text. -/
def text (n : Numeral) : List Char :=
  signText n.neg ++ (Nat.toDigits 10 (n.mant / 10 ^ n.places) ++
    (fracText n.places (n.mant % 10 ^ n.places) ++ expText n.exp))

/-! ### Runs of digits -/

/-- Nothing that would go on with a numeral. -/
def Ends (r : List Char) : Prop := ∀ c ∈ r.head?, c.isDigit = false ∧ c ≠ '.' ∧ c ≠ 'e'

def Digits (ds : List Char) : Prop := ∀ c ∈ ds, c.isDigit = true

def NoDigit (r : List Char) : Prop := ∀ c ∈ r.head?, c.isDigit = false

/-- A run of digits ends where no digit follows. -/
theorem run_inj {ds ds' r r' : List Char} (hd : Digits ds) (hd' : Digits ds') (hr : NoDigit r)
    (hr' : NoDigit r') (h : ds ++ r = ds' ++ r') : ds = ds' ∧ r = r' := by
  have htake : ∀ {es q : List Char}, Digits es → NoDigit q →
      (es ++ q).takeWhile Char.isDigit = es := by
    intro es q he hq
    rw [List.takeWhile_append_of_pos he]
    cases q with
    | nil => simp
    | cons c cs => simp [hq c rfl]
  have heq : ds = ds' := by rw [← htake hd hr, ← htake hd' hr', h]
  exact ⟨heq, List.append_cancel_left (heq ▸ h)⟩

theorem digits_toDigits (n : ℕ) : Digits (Nat.toDigits 10 n) := fun _ hc =>
  Nat.isDigit_of_mem_toDigits (by decide) (by decide) hc

theorem digits_padded (w f : ℕ) : Digits (padded w f) := by
  intro c hc
  simp only [padded, List.leftpad, List.mem_append, List.mem_replicate] at hc
  rcases hc with ⟨-, rfl⟩ | hc
  · decide
  · exact digits_toDigits f c hc

theorem toDigits_inj {m n : ℕ} (h : Nat.toDigits 10 m = Nat.toDigits 10 n) : m = n := by
  rw [← Nat.ofDigitChars_toDigits (b := 10) (n := m) (by decide) (by decide), h,
    Nat.ofDigitChars_toDigits (by decide) (by decide)]

theorem ofDigitChars_padded (w f : ℕ) : Nat.ofDigitChars 10 (padded w f) 0 = f := by
  rw [padded, List.leftpad, Nat.ofDigitChars_append, Nat.ofDigitChars_replicate_zero, mul_zero,
    Nat.ofDigitChars_toDigits (by decide) (by decide)]

theorem length_padded {w f : ℕ} (hw : 0 < w) (hf : f < 10 ^ w) : (padded w f).length = w := by
  have hlen : (Nat.toDigits 10 f).length ≤ w := (Nat.length_toDigits_le_iff (by decide) hw).mpr hf
  simp only [padded, List.leftpad, List.length_append, List.length_replicate]
  omega

/-! ### The text determines the numeral -/

theorem toDigits_head (n : ℕ) : ∃ c cs, Nat.toDigits 10 n = c :: cs ∧ c.isDigit = true := by
  cases h : Nat.toDigits 10 n with
  | nil => exact absurd h Nat.toDigits_ne_nil
  | cons c cs => exact ⟨c, cs, rfl, digits_toDigits n c (h ▸ List.mem_cons_self)⟩

theorem expText_inj {e e' : Option ℤ} {r r' : List Char} (hr : Ends r) (hr' : Ends r')
    (h : expText e ++ r = expText e' ++ r') : e = e' ∧ r = r' := by
  have hnd : ∀ {q : List Char}, Ends q → NoDigit q := fun hq c hc => (hq c hc).1
  have hno : ∀ {q : List Char} (cs : List Char), Ends q → q ≠ 'e' :: cs := by
    rintro q cs hq rfl
    exact (hq 'e' rfl).2.2 rfl
  cases e with
  | none =>
      cases e' with
      | none => exact ⟨rfl, h⟩
      | some b => exact absurd h (hno _ hr)
  | some a =>
      cases e' with
      | none => exact absurd h.symm (hno _ hr')
      | some b =>
          simp only [expText, List.cons_append, List.cons.injEq, true_and] at h
          obtain ⟨hsign, hrest⟩ := h
          obtain ⟨hpad, rfl⟩ := run_inj (digits_padded _ _) (digits_padded _ _) (hnd hr) (hnd hr') hrest
          have habs : a.natAbs = b.natAbs := by
            rw [← ofDigitChars_padded 2 a.natAbs, hpad, ofDigitChars_padded]
          have hneg : a < 0 ↔ b < 0 := by
            by_cases ha : a < 0 <;> by_cases hb : b < 0 <;> simp [ha, hb] at hsign ⊢
          exact ⟨by congr 1; omega, rfl⟩

/-- Nothing that would go on with the whole part. -/
theorem noDigit_fracText {w f : ℕ} {e : Option ℤ} {r : List Char} (hr : Ends r) :
    NoDigit (fracText w f ++ (expText e ++ r)) := by
  intro c hc
  unfold fracText at hc
  split at hc
  · cases e with
    | none => exact (hr c hc).1
    | some e =>
        obtain rfl : 'e' = c := by simpa [expText] using hc
        decide
  · obtain rfl : '.' = c := by simpa using hc
    decide

theorem noDigit_expText {e : Option ℤ} {r : List Char} (hr : Ends r) : NoDigit (expText e ++ r) := by
  simpa [fracText] using noDigit_fracText (w := 0) (f := 0) (e := e) hr

theorem fracText_inj {w w' f f' : ℕ} {e e' : Option ℤ} {r r' : List Char} (hf : f < 10 ^ w)
    (hf' : f' < 10 ^ w') (hr : Ends r) (hr' : Ends r')
    (h : fracText w f ++ (expText e ++ r) = fracText w' f' ++ (expText e' ++ r')) :
    w = w' ∧ f = f' ∧ expText e ++ r = expText e' ++ r' := by
  have hno : ∀ {q : List Char} {x : Option ℤ} (cs : List Char), Ends q → expText x ++ q ≠ '.' :: cs := by
    intro q x cs hq heq
    cases x with
    | none =>
        obtain rfl : q = '.' :: cs := heq
        exact (hq '.' rfl).2.1 rfl
    | some x => exact absurd (List.head_eq_of_cons_eq heq) (by decide)
  by_cases hw : w = 0
  · by_cases hw' : w' = 0
    · subst hw hw'
      simp only [fracText, if_true, List.nil_append] at h
      exact ⟨rfl, by omega, h⟩
    · simp only [fracText, hw, hw', if_true, if_false, List.nil_append, List.cons_append] at h
      exact absurd h (hno _ hr)
  · by_cases hw' : w' = 0
    · simp only [fracText, hw, hw', if_true, if_false, List.nil_append, List.cons_append] at h
      exact absurd h.symm (hno _ hr')
    · simp only [fracText, hw, hw', if_false, List.cons_append, List.cons.injEq, true_and] at h
      obtain ⟨hpad, hrest⟩ := run_inj (digits_padded _ _) (digits_padded _ _) (noDigit_expText hr)
        (noDigit_expText hr') h
      refine ⟨?_, ?_, hrest⟩
      · rw [← length_padded (Nat.pos_of_ne_zero hw) hf, hpad, length_padded (Nat.pos_of_ne_zero hw') hf']
      · rw [← ofDigitChars_padded w f, hpad, ofDigitChars_padded]

/-- The sign, then a digit. -/
theorem text_head (n : Numeral) : ∃ c cs, n.text = c :: cs ∧ (c = '-' ∨ c.isDigit = true) := by
  obtain ⟨c, cs, hd, hc⟩ := toDigits_head (n.mant / 10 ^ n.places)
  unfold text signText
  split
  · exact ⟨'-', _, rfl, Or.inl rfl⟩
  · exact ⟨c, _, by rw [hd]; rfl, Or.inr hc⟩

theorem signText_inj {b b' : Bool} {m m' : ℕ} {r r' : List Char}
    (h : signText b ++ (Nat.toDigits 10 m ++ r) = signText b' ++ (Nat.toDigits 10 m' ++ r')) :
    b = b' ∧ Nat.toDigits 10 m ++ r = Nat.toDigits 10 m' ++ r' := by
  have hno : ∀ (k : ℕ) (q cs : List Char), Nat.toDigits 10 k ++ q ≠ '-' :: cs := by
    intro k q cs heq
    obtain ⟨c, ds, hk, hc⟩ := toDigits_head k
    rw [hk, List.cons_append] at heq
    rw [List.head_eq_of_cons_eq heq] at hc
    exact absurd hc (by decide)
  cases b <;> cases b'
  · exact ⟨rfl, h⟩
  · exact absurd h (hno _ _ _)
  · exact absurd h.symm (hno _ _ _)
  · exact ⟨rfl, List.tail_eq_of_cons_eq h⟩

/-- CORRECT: a numeral's text determines it, and where it ends. -/
theorem text_inj {n n' : Numeral} {r r' : List Char} (hr : Ends r) (hr' : Ends r')
    (h : n.text ++ r = n'.text ++ r') : n = n' ∧ r = r' := by
  obtain ⟨neg, mant, places, exp⟩ := n
  obtain ⟨neg', mant', places', exp'⟩ := n'
  simp only [text, List.append_assoc] at h
  obtain ⟨rfl, hrest⟩ := signText_inj h
  obtain ⟨hwhole, hrest⟩ := run_inj (digits_toDigits _) (digits_toDigits _) (noDigit_fracText hr)
    (noDigit_fracText hr') hrest
  obtain ⟨rfl, hfrac, hrest⟩ := fracText_inj (Nat.mod_lt _ (by positivity))
    (Nat.mod_lt _ (by positivity)) hr hr' hrest
  obtain ⟨rfl, rfl⟩ := expText_inj hr hr' hrest
  have hmant : mant = mant' := by
    rw [← Nat.div_add_mod mant (10 ^ places), toDigits_inj hwhole, hfrac, Nat.div_add_mod]
  exact ⟨by rw [hmant], rfl⟩

/-! ### Exact decimals -/

/-- The same number and scale, written without an exponent; zero loses its sign. -/
def positional (n : Numeral) : Numeral :=
  let scale : ℤ := n.places - n.exp.getD 0
  ⟨n.neg && n.mant != 0, n.mant * 10 ^ (scale.toNat - scale).toNat, scale.toNat, none⟩

theorem positional_magnitude (n : Numeral) : n.positional.magnitude = n.magnitude := by
  simp only [positional, magnitude, Option.getD_none]
  push_cast
  rw [mul_assoc, ← zpow_natCast, ← zpow_add₀ (by norm_num)]
  congr 2
  omega

/-- What is written without an exponent, and is not a negative zero, stays as it is. -/
theorem positional_self {n : Numeral} (he : n.exp = none) (hz : n.neg = true → n.mant ≠ 0) :
    n.positional = n := by
  obtain ⟨neg, mant, places, exp⟩ := n
  obtain rfl : exp = none := he
  cases neg <;> simp_all [positional]

theorem ofInt_inj {i j : ℤ} (h : ofInt i = ofInt j) : i = j := by
  simp only [ofInt, mk.injEq, decide_eq_decide, and_true] at h
  omega

end Numeral

end Lib
