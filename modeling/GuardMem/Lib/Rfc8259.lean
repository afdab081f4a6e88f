import GuardMem.Lib.Numeral

/-! The scalars of JSON as RFC 8259 writes them: the three literal names, numbers and strings.

    CORRECT: the text of every numeral is a number (`number_text`), and no scalar starts with a letter
    other than the literal names' (`scalar_head`). -/

namespace Lib.Rfc8259

open Numeral

/-- `int = zero / ( digit1-9 *DIGIT )` -/
inductive Whole : List Char → Prop where
  | zero : Whole ['0']
  | digits {c : Char} {cs : List Char} : c.isDigit = true → c ≠ '0' → Digits cs → Whole (c :: cs)

/-- `[ frac ]`, where `frac = decimal-point 1*DIGIT` -/
inductive Fraction : List Char → Prop where
  | none : Fraction []
  | point {ds : List Char} : ds ≠ [] → Digits ds → Fraction ('.' :: ds)

/-- `[ minus / plus ]` -/
def Sign (t : List Char) : Prop := t = [] ∨ t = ['-'] ∨ t = ['+']

/-- `[ exp ]`, where `exp = e [ minus / plus ] 1*DIGIT` -/
inductive Exponent : List Char → Prop where
  | none : Exponent []
  | power {e : Char} {sign ds : List Char} : e = 'e' ∨ e = 'E' → Sign sign → ds ≠ [] → Digits ds →
      Exponent (e :: (sign ++ ds))

/-- `number = [ minus ] int [ frac ] [ exp ]` -/
inductive Number : List Char → Prop where
  | number {neg : Bool} {whole frac exp : List Char} : Whole whole → Fraction frac → Exponent exp →
      Number (signText neg ++ (whole ++ (frac ++ exp)))

/-- `HEXDIG`, in either case. -/
def Hex (c : Char) : Prop := c.isDigit = true ∨ c ∈ ['a', 'b', 'c', 'd', 'e', 'f', 'A', 'B', 'C', 'D', 'E', 'F']

/-- `char = unescaped / escape ( ... / %x75 4HEXDIG )` -/
inductive Piece : List Char → Prop where
  | unescaped {c : Char} : 0x20 ≤ c.toNat → c ≠ '"' → c ≠ '\\' → Piece [c]
  | escaped {c : Char} : c ∈ ['"', '\\', '/', 'b', 'f', 'n', 'r', 't'] → Piece ['\\', c]
  | unit {a b c d : Char} : Hex a → Hex b → Hex c → Hex d → Piece ['\\', 'u', a, b, c, d]

/-- `*char` -/
inductive Pieces : List Char → Prop where
  | nil : Pieces []
  | cons {p ps : List Char} : Piece p → Pieces ps → Pieces (p ++ ps)

/-- `value`, but for objects and arrays: `false / null / true / number / string`, where
    `string = quotation-mark *char quotation-mark` -/
inductive Scalar : List Char → Prop where
  | null : Scalar "null".toList
  | true : Scalar "true".toList
  | false : Scalar "false".toList
  | number {t : List Char} : Number t → Scalar t
  | string {ps : List Char} : Pieces ps → Scalar ('"' :: (ps ++ ['"']))

/-! ### Numerals -/

/-- Decimal digits have no zero in front. -/
theorem whole_toDigits (n : ℕ) : Whole (Nat.toDigits 10 n) := by
  induction n using Nat.strongRecOn with
  | ind n ih =>
      by_cases hsmall : n < 10
      · rw [Nat.toDigits_of_lt_base hsmall]
        rcases Nat.eq_zero_or_pos n with rfl | hpos
        · exact .zero
        · have hdigit : ∀ m < 10, 0 < m → (Nat.digitChar m).isDigit = true ∧ Nat.digitChar m ≠ '0' := by
            decide
          exact .digits (hdigit n hsmall hpos).1 (hdigit n hsmall hpos).2 (by simp [Digits])
      · have hlast : Digits [Nat.digitChar (n % 10)] := by
          rw [← Nat.toDigits_of_lt_base (Nat.mod_lt n (by decide))]
          exact digits_toDigits _
        have hne : n / 10 ≠ 0 := by omega
        rw [Nat.toDigits_of_base_le (by decide) (not_lt.mp hsmall)]
        generalize hfront : Nat.toDigits 10 (n / 10) = front
        have hwhole := hfront ▸ ih (n / 10) (by omega)
        cases hwhole with
        | zero => exact absurd (toDigits_inj (hfront.trans (Nat.toDigits_zero 10).symm)) hne
        | digits hc hzero hcs =>
            refine .digits hc hzero fun d hd => ?_
            rcases List.mem_append.mp hd with hd | hd
            · exact hcs d hd
            · exact hlast d hd

theorem padded_ne_nil (w f : ℕ) : padded w f ≠ [] := by
  simp [padded, List.leftpad, Nat.toDigits_ne_nil]

theorem fraction_fracText (places f : ℕ) : Fraction (fracText places f) := by
  unfold fracText
  split
  · exact .none
  · exact .point (padded_ne_nil _ _) (digits_padded _ _)

theorem exponent_expText (e : Option ℤ) : Exponent (expText e) := by
  rcases e with _ | e
  · exact .none
  · have hsign : Sign [if e < 0 then '-' else '+'] := by
      unfold Sign
      split <;> simp
    exact .power (Or.inl rfl) hsign (padded_ne_nil _ _) (digits_padded _ _)

/-- CORRECT: the text of a numeral is a number. -/
theorem number_text (n : Numeral) : Number n.text :=
  .number (whole_toDigits _) (fraction_fracText _ _) (exponent_expText _)

/-! ### What a scalar starts with -/

theorem number_head {t : List Char} (h : Number t) :
    ∃ c cs, t = c :: cs ∧ (c.isDigit = true ∨ c = '-' ∧ ∃ d ds, cs = d :: ds ∧ d.isDigit = true) := by
  obtain @⟨neg, whole, frac, exp, hwhole, -, -⟩ := h
  obtain ⟨d, ds, rfl, hd⟩ : ∃ d ds, whole = d :: ds ∧ d.isDigit = true := by
    cases hwhole with
    | zero => exact ⟨'0', [], rfl, by decide⟩
    | digits hc _ _ => exact ⟨_, _, rfl, hc⟩
  cases neg with
  | false => exact ⟨d, _, rfl, Or.inl hd⟩
  | true => exact ⟨'-', _, rfl, Or.inr ⟨rfl, d, _, rfl, hd⟩⟩

/-- A scalar starts with a literal name, a digit, a minus and a digit, or a quotation mark. -/
theorem scalar_head {t : List Char} (h : Scalar t) :
    ∃ c cs, t = c :: cs ∧ (c ∈ ['n', 't', 'f', '"'] ∨ c.isDigit = true ∨
      c = '-' ∧ ∃ d ds, cs = d :: ds ∧ d.isDigit = true) := by
  cases h with
  | null => exact ⟨'n', _, rfl, Or.inl (by decide)⟩
  | true => exact ⟨'t', _, rfl, Or.inl (by decide)⟩
  | false => exact ⟨'f', _, rfl, Or.inl (by decide)⟩
  | number hnumber =>
      obtain ⟨c, cs, rfl, hc⟩ := number_head hnumber
      exact ⟨c, cs, rfl, Or.inr hc⟩
  | string _ => exact ⟨'"', _, rfl, Or.inl (by decide)⟩

theorem pieces_append {ps qs : List Char} (hp : Pieces ps) (hq : Pieces qs) : Pieces (ps ++ qs) := by
  induction hp with
  | nil => exact hq
  | cons h _ ih => exact List.append_assoc .. ▸ .cons h ih

theorem pieces_of_piece {p : List Char} (h : Piece p) : Pieces p := List.append_nil p ▸ .cons h .nil

end Lib.Rfc8259
