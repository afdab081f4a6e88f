import Mathlib.Data.List.Basic
import Mathlib.Data.Rat.Lemmas
import Mathlib.Tactic.Common
import Mathlib.Tactic.FieldSimp
import Mathlib.Tactic.Linarith
import Mathlib.Tactic.Ring

/-! How alike two texts are: the normalised insertion and deletion distance.

    A longest common subsequence is what an optimal edit keeps, so the distance is what is left of both.
    CORRECT: `lcs` is the length of a common subsequence and no common one is longer
    (`exists_common`, `le_lcs`), so a text can only be close to one of about its own length
    (`length_le_of_similarity`). -/

namespace Lib.Similarity

open List

variable {α : Type} [DecidableEq α] {as bs l : List α}

/-- The row of `a` over the row below it. -/
def row (a : α) (below : List α → ℕ) : List α → ℕ
  | [] => 0
  | b :: bs => if a = b then below bs + 1 else max (below (b :: bs)) (row a below bs)

/-- The length of a longest common subsequence. -/
def lcs : List α → List α → ℕ
  | [], _ => 0
  | a :: as, bs => row a (lcs as) bs

theorem lcs_cons (a b : α) (as bs : List α) :
    lcs (a :: as) (b :: bs) = if a = b then lcs as bs + 1 else max (lcs as (b :: bs)) (lcs (a :: as) bs) :=
  rfl

theorem exists_common : ∀ as bs : List α, ∃ l, l <+ as ∧ l <+ bs ∧ l.length = lcs as bs := by
  intro as
  induction as with
  | nil => exact fun bs => ⟨[], Sublist.refl _, nil_sublist bs, rfl⟩
  | cons a as iha =>
      intro bs
      induction bs with
      | nil => exact ⟨[], nil_sublist _, Sublist.refl _, rfl⟩
      | cons b bs ihb =>
          by_cases hab : a = b
          · obtain ⟨l, hla, hlb, hlen⟩ := iha bs
            refine ⟨a :: l, hla.cons_cons a, hab ▸ hlb.cons_cons a, ?_⟩
            rw [lcs_cons, if_pos hab, length_cons, hlen]
          · obtain ⟨l, hla, hlb, hlen⟩ := iha (b :: bs)
            obtain ⟨l', hla', hlb', hlen'⟩ := ihb
            rw [lcs_cons, if_neg hab]
            rcases le_total (lcs as (b :: bs)) (lcs (a :: as) bs) with h | h
            · exact ⟨l', hla', hlb'.cons b, by rw [hlen', max_eq_right h]⟩
            · exact ⟨l, hla.cons a, hlb, by rw [hlen, max_eq_left h]⟩

theorem le_lcs : l <+ as → l <+ bs → l.length ≤ lcs as bs := by
  induction as generalizing l bs with
  | nil => intro h _; simp [sublist_nil.mp h]
  | cons a as iha =>
      induction bs generalizing l with
      | nil => intro _ h; simp [sublist_nil.mp h]
      | cons b bs ihb =>
          intro ha hb
          rw [lcs_cons]
          split_ifs with hab
          · -- the heads agree: whatever the subsequence does with them, its tail is common
            have htail : l.length - 1 ≤ lcs as bs := length_tail ▸ iha ha.tail hb.tail
            omega
          · rcases sublist_cons_iff.mp ha with hskip | ⟨l', rfl, -⟩
            · exact (iha hskip hb).trans (le_max_left _ _)
            · rcases sublist_cons_iff.mp hb with hskip | ⟨l'', heq, -⟩
              · exact (ihb ha hskip).trans (le_max_right _ _)
              · exact absurd (cons.inj heq).1 hab

theorem lcs_le_left (as bs : List α) : lcs as bs ≤ as.length := by
  obtain ⟨l, hla, -, hlen⟩ := exists_common as bs
  exact hlen ▸ hla.length_le

theorem lcs_le_right (as bs : List α) : lcs as bs ≤ bs.length := by
  obtain ⟨l, -, hlb, hlen⟩ := exists_common as bs
  exact hlen ▸ hlb.length_le

/-- How many insertions and deletions turn one into the other. -/
def indel (as bs : List α) : ℕ := as.length + bs.length - 2 * lcs as bs

/-- One for equal texts, zero for texts with nothing in common. -/
def similarity (as bs : List α) : ℚ := 1 - indel as bs / (as.length + bs.length : ℕ)

@[simp] theorem similarity_self (as : List α) : similarity as as = 1 := by
  have hlcs : lcs as as = as.length :=
    le_antisymm (lcs_le_left as as) (le_lcs (Sublist.refl as) (Sublist.refl as))
  simp [similarity, indel, hlcs, two_mul]

theorem similarity_unit (as bs : List α) : 0 ≤ similarity as bs ∧ similarity as bs ≤ 1 := by
  have hle : (indel as bs : ℚ) ≤ (as.length + bs.length : ℕ) := by exact_mod_cast Nat.sub_le _ _
  have hfrac : (indel as bs : ℚ) / (as.length + bs.length : ℕ) ≤ 1 := div_le_one_of_le₀ hle (Nat.cast_nonneg _)
  have hpos : 0 ≤ (indel as bs : ℚ) / (as.length + bs.length : ℕ) :=
    div_nonneg (Nat.cast_nonneg _) (Nat.cast_nonneg _)
  constructor <;> rw [similarity] <;> linarith

/-- What is kept of the two lengths. -/
theorem similarity_mul (as bs : List α) :
    similarity as bs * (as.length + bs.length : ℕ) = (2 * lcs as bs : ℕ) := by
  have hleft := lcs_le_left as bs
  have hright := lcs_le_right as bs
  have hindel : (indel as bs : ℚ) = (as.length + bs.length : ℕ) - (2 * lcs as bs : ℕ) := by
    rw [indel, Nat.cast_sub (by omega)]
  rcases Nat.eq_zero_or_pos (as.length + bs.length) with h0 | hpos
  · have hlcs : lcs as bs = 0 := by omega
    simp [h0, hlcs]
  · have hne : ((as.length + bs.length : ℕ) : ℚ) ≠ 0 := by exact_mod_cast hpos.ne'
    rw [similarity, hindel]
    field_simp
    ring

/-- CORRECT: a text is close to another only up to a multiple of the other's length. -/
theorem length_le_of_similarity {c : ℚ} (h : c ≤ similarity as bs) :
    c * as.length ≤ (2 - c) * bs.length := by
  have hkept : c * (as.length + bs.length : ℕ) ≤ (2 * bs.length : ℕ) :=
    calc c * (as.length + bs.length : ℕ)
        ≤ similarity as bs * (as.length + bs.length : ℕ) := by gcongr
      _ = (2 * lcs as bs : ℕ) := similarity_mul as bs
      _ ≤ (2 * bs.length : ℕ) := by exact_mod_cast Nat.mul_le_mul_left 2 (lcs_le_right as bs)
  push_cast at hkept
  linarith

end Lib.Similarity
