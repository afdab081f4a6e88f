import Mathlib.Algebra.Order.Field.Basic
import Mathlib.Tactic.Linarith
import Mathlib.Tactic.FieldSimp
import Mathlib.Tactic.Ring

/-! A token bucket over any ordered field, read by clocks that may disagree.

    What was admitted and what is left never exceed what was there and what the clock has brought since
    (`spent_le`), so a run is bounded by the capacity and the furthest reading (`admitted_le`) and, where
    the clock does not go back, every window by its length (`window_le`). A bucket left alone until it is
    full is as good as absent (`refilled_idle`). -/

namespace Lib.TokenBucket

variable {K : Type} [Field K] [LinearOrder K]

/-- How many tokens it holds, and as of when. -/
structure Bucket (K : Type) where
  tokens : K
  updated : K
  deriving DecidableEq

/-- The depth of a bucket and how fast it fills. -/
structure Rate (K : Type) [Field K] [LinearOrder K] where
  capacity : K
  refill : K
  one_le_capacity : 1 ≤ capacity
  refill_pos : 0 < refill

namespace Rate

variable (r : Rate K)

/-- The bucket at a reading; one that is absent is full. -/
def refilled (now : K) : Option (Bucket K) → Bucket K
  | none => ⟨r.capacity, now⟩
  | some b =>
      if b.updated < now then ⟨min r.capacity (b.tokens + (now - b.updated) * r.refill), now⟩ else b

/-- Take a token if there is one. -/
def take (now : K) (stored : Option (Bucket K)) : Bool × Bucket K :=
  let b := r.refilled now stored
  if 1 ≤ b.tokens then (true, { b with tokens := b.tokens - 1 }) else (false, b)

/-- How long until there is a token. -/
def wait (b : Bucket K) : K := (1 - b.tokens) / r.refill

/-- What each reading of a run was answered. -/
def answers (stored : Option (Bucket K)) : List K → List (K × Bool)
  | [] => []
  | now :: rest => (now, (r.take now stored).1) :: answers (some (r.take now stored).2) rest

/-- The bucket after a run. -/
def held (stored : Option (Bucket K)) : List K → Option (Bucket K)
  | [] => stored
  | now :: rest => held (some (r.take now stored).2) rest

/-- How many of the answers admit. -/
def admitted (answers : List (K × Bool)) : ℕ := (answers.filter Prod.snd).length

/-- The tokens are between none and the capacity. -/
def Within (b : Bucket K) : Prop := 0 ≤ b.tokens ∧ b.tokens ≤ r.capacity

variable {r} {b : Bucket K} {stored : Option (Bucket K)} {now : K} {ts us : List K}

theorem answers_append : r.answers stored (ts ++ us) =
    r.answers stored ts ++ r.answers (r.held stored ts) us := by
  induction ts generalizing stored with
  | nil => rfl
  | cons t ts ih => rw [List.cons_append, answers, ih, answers, List.cons_append, held]

theorem held_append : r.held stored (ts ++ us) = r.held (r.held stored ts) us := by
  induction ts generalizing stored with
  | nil => rfl
  | cons t ts ih => rw [List.cons_append, held, ih, held]

theorem answers_times : (r.answers stored ts).map Prod.fst = ts := by
  induction ts generalizing stored with
  | nil => rfl
  | cons t ts ih => rw [answers, List.map_cons, ih]

theorem take_updated : (r.take now stored).2.updated = (r.refilled now stored).updated := by
  unfold take
  dsimp only
  split <;> rfl

/-- The clock of a bucket is the furthest it has been read. -/
theorem updated_some : (r.take now (some b)).2.updated = max b.updated now := by
  rw [take_updated, refilled]
  split_ifs with h
  · exact (max_eq_right h.le).symm
  · exact (max_eq_left (not_lt.mp h)).symm

/-- One token is one admission. -/
theorem take_spends : (if (r.take now stored).1 then 1 else 0) + (r.take now stored).2.tokens =
    (r.refilled now stored).tokens := by
  unfold take
  dsimp only
  split_ifs <;> simp_all

theorem le_updated : now ≤ (r.take now stored).2.updated := by
  rw [take_updated]
  cases stored with
  | none => exact le_rfl
  | some b =>
      rw [refilled]
      split_ifs with h
      · exact le_rfl
      · exact not_lt.mp h

theorem refilled_le : (r.refilled now (some b)).tokens ≤
    b.tokens + r.refill * ((r.refilled now (some b)).updated - b.updated) := by
  rw [refilled]
  split_ifs with h
  · exact (min_le_right _ _).trans_eq (by ring)
  · simp

theorem admitted_cons : (admitted (r.answers stored (now :: ts)) : K) =
    (if (r.take now stored).1 then 1 else 0) +
      (admitted (r.answers (some (r.take now stored).2) ts) : K) := by
  simp only [answers, admitted, List.filter_cons]
  split_ifs <;> simp [add_comm]

section Ordered

variable [IsStrictOrderedRing K]

theorem refilled_within (h : ∀ b ∈ stored, r.Within b) : r.Within (r.refilled now stored) := by
  have hcapacity : 0 ≤ r.capacity := zero_le_one.trans r.one_le_capacity
  cases stored with
  | none => exact ⟨hcapacity, le_rfl⟩
  | some b =>
      obtain ⟨hlow, hhigh⟩ := h b rfl
      rw [refilled]
      split_ifs with hlt
      · refine ⟨le_min hcapacity ?_, min_le_left _ _⟩
        exact add_nonneg hlow (mul_nonneg (sub_nonneg.mpr hlt.le) r.refill_pos.le)
      · exact ⟨hlow, hhigh⟩

/-- CORRECT: whatever the reading, the tokens stay between none and the capacity. -/
theorem take_within (h : ∀ b ∈ stored, r.Within b) : r.Within (r.take now stored).2 := by
  obtain ⟨hlow, hhigh⟩ : r.Within (r.refilled now stored) := refilled_within h
  unfold take
  dsimp only
  split_ifs with hone
  · exact ⟨sub_nonneg.mpr hone, (sub_le_self _ zero_le_one).trans hhigh⟩
  · exact ⟨hlow, hhigh⟩

theorem taken_within (h : ∀ b ∈ stored, r.Within b) : ∀ b ∈ some (r.take now stored).2, r.Within b := by
  rintro b hb
  obtain rfl := Option.some.inj hb
  exact take_within h

theorem held_within (h : ∀ b ∈ stored, r.Within b) : ∀ b ∈ r.held stored ts, r.Within b := by
  induction ts generalizing stored with
  | nil => exact h
  | cons t ts ih => exact ih (taken_within h)

/-- The run lemma: what was admitted and what is left were there or were brought by the clock. -/
theorem spent_le : ∀ {ts : List K} {b : Bucket K}, ∃ b', r.held (some b) ts = some b' ∧
    (∀ M, b.updated ≤ M → (∀ t ∈ ts, t ≤ M) → b'.updated ≤ M) ∧
    (admitted (r.answers (some b) ts) : K) + b'.tokens ≤ b.tokens + r.refill * (b'.updated - b.updated)
  | [], b => ⟨b, rfl, fun _ h _ => h, by simp [answers, admitted]⟩
  | now :: ts, b => by
      obtain ⟨b', hheld, hmax, hspent⟩ := @spent_le ts (r.take now (some b)).2
      refine ⟨b', hheld, fun M hM hts => hmax M ?_ fun t ht => hts t (List.mem_cons_of_mem _ ht), ?_⟩
      · rw [updated_some]
        exact max_le hM (hts now List.mem_cons_self)
      · have hspends := @take_spends K _ _ r (some b) now
        have hgain := @refilled_le K _ _ r b now
        rw [← take_updated] at hgain
        rw [admitted_cons]
        linarith

/-- CORRECT: a run admits no more than the capacity and what comes in up to its furthest reading. -/
theorem admitted_le {M : K} (h : ∀ b ∈ stored, r.Within b) (hM : ∀ t ∈ now :: ts, t ≤ M) :
    (admitted (r.answers stored (now :: ts)) : K) ≤ r.capacity + r.refill * (M - now) := by
  have hfull : (r.refilled now stored).tokens ≤ r.capacity := (refilled_within h).2
  have hspends := @take_spends K _ _ r stored now
  have hbegun := @le_updated K _ _ r stored now
  obtain ⟨b, hheld, hmax, hspent⟩ := @spent_le K _ _ r _ ts (r.take now stored).2
  have hleft : 0 ≤ b.tokens := (held_within (taken_within h) b hheld).1
  have hgain : b.updated - (r.take now stored).2.updated ≤ M - now := by
    rcases le_total (r.take now stored).2.updated M with hle | hle
    · have hlast := hmax M hle fun t ht => hM t (List.mem_cons_of_mem _ ht)
      linarith
    · have hlast := hmax _ le_rfl fun t ht => (hM t (List.mem_cons_of_mem _ ht)).trans hle
      have hfirst := hM now List.mem_cons_self
      linarith
  have hbrought := mul_le_mul_of_nonneg_left hgain r.refill_pos.le
  rw [admitted_cons]
  linarith

/-! ### A clock that does not go back -/

omit [IsStrictOrderedRing K] in
/-- Read in order, the bucket is as of its last reading. -/
theorem updated_held (hts : (ts ++ [now]).Pairwise (· ≤ ·))
    (hstored : ∀ b ∈ stored, ∀ t ∈ ts ++ [now], b.updated ≤ t) :
    ∃ b, r.held stored (ts ++ [now]) = some b ∧ b.updated = now := by
  have htaken : ∀ {t : K}, (∀ b ∈ stored, b.updated ≤ t) → (r.take t stored).2.updated = t := by
    intro t ht
    cases stored with
    | none => exact take_updated
    | some b => exact updated_some.trans (max_eq_right (ht b rfl))
  induction ts generalizing stored with
  | nil =>
      exact ⟨_, rfl, htaken fun b hb => hstored b hb now (List.mem_singleton_self _)⟩
  | cons t ts ih =>
      obtain ⟨hhead, htail⟩ := List.pairwise_cons.mp hts
      have hupdated := htaken fun b hb => hstored b hb t List.mem_cons_self
      refine ih htail (fun b hb u hu => ?_) fun {u} hu => ?_
      · obtain rfl := Option.some.inj hb
        exact hupdated.le.trans (hhead u hu)
      · exact updated_some.trans (max_eq_right (hu _ rfl))

/-- What is admitted from `s` on, up to a bound on the readings. -/
theorem admitted_from_le {s t : K} (hst : s ≤ t) (h : ∀ b ∈ stored, r.Within b) (hts : ∀ u ∈ ts, u ≤ t) :
    (((r.answers stored ts).filter fun a => s ≤ a.1 ∧ a.2 = true).length : K) ≤
      r.capacity + r.refill * (t - s) := by
  induction ts generalizing stored with
  | nil =>
      have hnonneg := mul_nonneg r.refill_pos.le (sub_nonneg.mpr hst)
      have hcapacity := r.one_le_capacity
      simp only [answers, List.filter_nil, List.length_nil, Nat.cast_zero]
      linarith
  | cons now ts ih =>
      by_cases hnow : s ≤ now
      · have hcount : (((r.answers stored (now :: ts)).filter fun a => s ≤ a.1 ∧ a.2 = true).length : K) ≤
            (admitted (r.answers stored (now :: ts)) : K) := by
          refine Nat.cast_le.mpr (List.Sublist.length_le (List.monotone_filter_right _ fun a ha => ?_))
          exact (of_decide_eq_true ha).2
        have hrun := admitted_le h hts
        have hless := mul_le_mul_of_nonneg_left (sub_le_sub_left hnow t) r.refill_pos.le
        linarith
      · have hskip : ((r.answers stored (now :: ts)).filter fun a => s ≤ a.1 ∧ a.2 = true) =
            (r.answers (some (r.take now stored).2) ts).filter fun a => s ≤ a.1 ∧ a.2 = true :=
          List.filter_cons_of_neg (by simp [hnow])
        rw [hskip]
        exact ih (taken_within h) fun u hu => hts u (List.mem_cons_of_mem _ hu)

omit [Field K] [IsStrictOrderedRing K] in
theorem lt_of_mem_dropWhile {t : K} (hts : ts.Pairwise (· ≤ ·)) :
    ∀ u ∈ ts.dropWhile (· ≤ t), t < u := by
  induction ts with
  | nil => simp
  | cons now ts ih =>
      obtain ⟨hhead, htail⟩ := List.pairwise_cons.mp hts
      rw [List.dropWhile_cons]
      split_ifs with h
      · exact ih htail
      · have hnow : t < now := by simpa using h
        intro u hu
        rcases List.mem_cons.mp hu with rfl | hu
        · exact hnow
        · exact hnow.trans_le (hhead u hu)

/-- CORRECT: a window admits no more than the capacity and what comes in over its length. -/
theorem window_le (hts : ts.Pairwise (· ≤ ·)) {s t : K} (hst : s ≤ t) :
    (((r.answers none ts).filter fun a => s ≤ a.1 ∧ a.1 ≤ t ∧ a.2 = true).length : K) ≤
      r.capacity + r.refill * (t - s) := by
  have hsplit : r.answers none ts = r.answers none (ts.takeWhile (· ≤ t)) ++
      r.answers (r.held none (ts.takeWhile (· ≤ t))) (ts.dropWhile (· ≤ t)) := by
    rw [← answers_append, List.takeWhile_append_dropWhile]
  have habove : ((r.answers (r.held none (ts.takeWhile (· ≤ t))) (ts.dropWhile (· ≤ t))).filter
      fun a => s ≤ a.1 ∧ a.1 ≤ t ∧ a.2 = true) = [] := by
    refine List.filter_eq_nil_iff.mpr fun a ha hwindow => ?_
    have hmem := List.mem_map_of_mem (f := Prod.fst) ha
    rw [answers_times] at hmem
    exact absurd (of_decide_eq_true hwindow).2.1 (not_le.mpr (lt_of_mem_dropWhile hts _ hmem))
  have hbelow : ∀ u ∈ ts.takeWhile (· ≤ t), u ≤ t := fun u hu =>
    of_decide_eq_true (List.all_eq_true.mp List.all_takeWhile u hu)
  rw [hsplit, List.filter_append, habove, List.append_nil]
  have hwithin : ∀ b ∈ (none : Option (Bucket K)), r.Within b := by simp
  refine le_trans (Nat.cast_le.mpr ?_) (admitted_from_le hst hwithin hbelow)
  refine List.Sublist.length_le (List.monotone_filter_right _ fun a ha => ?_)
  obtain ⟨hs, -, hadmit⟩ := of_decide_eq_true ha
  exact decide_eq_true ⟨hs, hadmit⟩

/-- CORRECT: from its wait on, a bucket that nobody else reads admits. -/
theorem wait_admits (hb : b.updated = now) {later : K} (hlater : now + r.wait b ≤ later) :
    (r.take later (some b)).1 = true := by
  have hwait : r.wait b * r.refill = 1 - b.tokens := div_mul_cancel₀ _ r.refill_pos.ne'
  have hone : 1 ≤ (r.refilled later (some b)).tokens := by
    rw [refilled]
    split_ifs with hlt
    · refine le_min r.one_le_capacity ?_
      have hlong : r.wait b ≤ later - b.updated := by linarith
      have hgain := mul_le_mul_of_nonneg_right hlong r.refill_pos.le
      linarith
    · have hshort : r.wait b ≤ 0 := by linarith [not_lt.mp hlt]
      have hgain := mul_nonpos_of_nonpos_of_nonneg hshort r.refill_pos.le
      linarith
  rw [take, if_pos hone]

/-- CORRECT: left alone until it is full, a bucket is as good as absent. -/
theorem refilled_idle {idle : K} (hb : r.Within b) (hidle : r.capacity ≤ idle * r.refill) (hpos : 0 < idle)
    (hnow : b.updated + idle ≤ now) : r.refilled now (some b) = r.refilled now none := by
  have hlt : b.updated < now := (lt_add_of_pos_right _ hpos).trans_le hnow
  have hlong : idle ≤ now - b.updated := by linarith
  have hgain := mul_le_mul_of_nonneg_right hlong r.refill_pos.le
  have hfull : min r.capacity (b.tokens + (now - b.updated) * r.refill) = r.capacity :=
    min_eq_left (by linarith [hb.1])
  simp only [refilled]
  rw [if_pos hlt, hfull]

theorem take_idle {idle : K} (hb : r.Within b) (hidle : r.capacity ≤ idle * r.refill) (hpos : 0 < idle)
    (hnow : b.updated + idle ≤ now) : r.take now (some b) = r.take now none := by
  unfold take
  rw [refilled_idle hb hidle hpos hnow]

end Ordered

end Rate

end Lib.TokenBucket
