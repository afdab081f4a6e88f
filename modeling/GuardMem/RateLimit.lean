import GuardMem.Lib.TokenBucket
import Mathlib.Algebra.Order.Field.Rat
import Mathlib.Algebra.Order.Floor.Ring
import Mathlib.Data.Rat.Floor
import Mathlib.Tactic.NormNum

/-! The gateway's token bucket: the script of one check, and runs of it.

    Time comes from the caller, so readings need not be in order. The script is a token bucket
    (`bucket_script_eq`). CORRECT: over exact rationals its tokens stay in bounds and a run, a window and a
    wait are bounded as its rate says, and a key expires no sooner than its bucket is full, so that nobody
    can tell (`token_bucket_bound`). -/

namespace GuardMem.Limits

open Lib.TokenBucket

/-- `{allowed, tokens_remaining, retry_after_seconds}`. -/
structure Reply where
  allowed : Bool
  tokens : ℚ
  retry_after : ℚ
  deriving DecidableEq

/-- One check: what `HMGET` found, or nothing, and what `HSET` leaves. -/
def bucket_script (capacity refill_per_second now : ℚ) (state : Option (Bucket ℚ)) : Reply × Bucket ℚ :=
  let b := state.getD ⟨capacity, now⟩
  let elapsed := now - b.updated
  let b := if 0 < elapsed then ⟨min capacity (b.tokens + elapsed * refill_per_second), now⟩ else b
  if 1 ≤ b.tokens then (⟨true, b.tokens - 1, 0⟩, ⟨b.tokens - 1, b.updated⟩)
  else (⟨false, b.tokens, (1 - b.tokens) / refill_per_second⟩, b)

/-- The limiter as it is configured: whole numbers, each at least one. -/
structure TokenBucket where
  burst : ℕ
  per_minute : ℕ
  one_le_burst : 1 ≤ burst
  one_le_per_minute : 1 ≤ per_minute

namespace TokenBucket

variable (limiter : TokenBucket)

def capacity : ℚ := limiter.burst

def refill_per_second : ℚ := limiter.per_minute / 60

/-- `max(1, int(burst / max(refill_per_second, 1e-9)) + 1)`. -/
def idle_ttl : ℤ := max 1 (⌊limiter.capacity / max limiter.refill_per_second (1 / 10 ^ 9)⌋ + 1)

theorem one_le_capacity : 1 ≤ limiter.capacity := Nat.one_le_cast.mpr limiter.one_le_burst

theorem refill_pos : 0 < limiter.refill_per_second :=
  div_pos (Nat.cast_pos.mpr limiter.one_le_per_minute) (by norm_num)

def rate : Rate ℚ where
  capacity := limiter.capacity
  refill := limiter.refill_per_second
  one_le_capacity := limiter.one_le_capacity
  refill_pos := limiter.refill_pos

end TokenBucket

/-! ### Runs on one bucket -/

variable (rate : Rate ℚ)

/-- A check at a rate. -/
def check (now : ℚ) (state : Option (Bucket ℚ)) : Reply × Bucket ℚ :=
  bucket_script rate.capacity rate.refill now state

/-- What each check of a run was answered. -/
def checks (state : Option (Bucket ℚ)) : List ℚ → List (ℚ × Reply)
  | [] => []
  | now :: rest => (now, (check rate now state).1) :: checks (some (check rate now state).2) rest

/-- The key after a run. -/
def stored (state : Option (Bucket ℚ)) : List ℚ → Option (Bucket ℚ)
  | [] => state
  | now :: rest => stored (some (check rate now state).2) rest

/-- A run in which a check may find the key expired. -/
def expiring_checks (state : Option (Bucket ℚ)) : List (ℚ × Bool) → List (ℚ × Reply)
  | [] => []
  | (now, expired) :: rest =>
      let found := if expired then none else state
      (now, (check rate now found).1) :: expiring_checks (some (check rate now found).2) rest

/-- A key expires `ttl` seconds after the check before at the earliest. -/
def ExpiresIdle (ttl : ℚ) : Option ℚ → List (ℚ × Bool) → Prop
  | _, [] => True
  | last, (now, expired) :: rest =>
      (expired = true → ∀ t ∈ last, t + ttl ≤ now) ∧ ExpiresIdle ttl (some now) rest

/-- How many of the checks were admitted. -/
def admitted (cs : List (ℚ × Reply)) : ℕ := (cs.filter fun c => c.2.allowed).length

variable {rate} {now : ℚ} {state : Option (Bucket ℚ)} {readings : List ℚ}

/-! ### The script is a token bucket -/

/-- CORRECT: the script takes a token of the refilled bucket, and says how long to wait for one. -/
theorem bucket_script_eq : check rate now state =
    (⟨(rate.take now state).1, (rate.take now state).2.tokens,
      if (rate.take now state).1 then 0 else rate.wait (rate.take now state).2⟩, (rate.take now state).2) := by
  have hrefilled : rate.refilled now state =
      (if 0 < now - (state.getD ⟨rate.capacity, now⟩).updated then
        ⟨min rate.capacity ((state.getD ⟨rate.capacity, now⟩).tokens +
          (now - (state.getD ⟨rate.capacity, now⟩).updated) * rate.refill), now⟩
      else state.getD ⟨rate.capacity, now⟩) := by
    cases state with
    | none => simp [Rate.refilled]
    | some b => simp [Rate.refilled, sub_pos]
  unfold check bucket_script Rate.take
  dsimp only
  rw [← hrefilled]
  by_cases h : 1 ≤ (rate.refilled now state).tokens
  · rw [if_pos h, if_pos h]
    rfl
  · rw [if_neg h, if_neg h]
    rfl

theorem checks_answers : (checks rate state readings).map (fun c => (c.1, c.2.allowed)) =
    rate.answers state readings := by
  induction readings generalizing state with
  | nil => rfl
  | cons now rest ih => rw [checks, List.map_cons, ih, Rate.answers, bucket_script_eq]

theorem stored_held : stored rate state readings = rate.held state readings := by
  induction readings generalizing state with
  | nil => rfl
  | cons now rest ih => rw [stored, ih, Rate.held, bucket_script_eq]

theorem admitted_checks : admitted (checks rate state readings) =
    Rate.admitted (rate.answers state readings) := by
  rw [← checks_answers, Rate.admitted, List.filter_map, List.length_map]
  rfl

theorem checks_within (h : ∀ b ∈ state, rate.Within b) :
    ∀ c ∈ checks rate state readings, 0 ≤ c.2.tokens ∧ c.2.tokens ≤ rate.capacity := by
  induction readings generalizing state with
  | nil => simp [checks]
  | cons now rest ih =>
      intro c hc
      rcases List.mem_cons.mp hc with rfl | hc
      · rw [bucket_script_eq]
        exact Rate.take_within h
      · rw [bucket_script_eq] at hc
        exact ih (Rate.taken_within h) c hc

/-! ### Expiry -/

/-- The rounded lifetime of a key is no shorter than its bucket takes to fill. -/
theorem capacity_le_idle_ttl (limiter : TokenBucket) :
    0 < (limiter.idle_ttl : ℚ) ∧ limiter.rate.capacity ≤ limiter.idle_ttl * limiter.rate.refill := by
  have hrefill : 1 / 60 ≤ limiter.refill_per_second := by
    have hone : (1 : ℚ) ≤ limiter.per_minute := Nat.one_le_cast.mpr limiter.one_le_per_minute
    rw [TokenBucket.refill_per_second]
    linarith
  have hguard : max limiter.refill_per_second (1 / 10 ^ 9) = limiter.refill_per_second :=
    max_eq_left (le_trans (by norm_num) hrefill)
  have hpos : 0 < limiter.refill_per_second := lt_of_lt_of_le (by norm_num) hrefill
  have hone : (1 : ℚ) ≤ limiter.idle_ttl := by exact_mod_cast le_max_left _ _
  have hround : limiter.capacity / limiter.refill_per_second ≤ limiter.idle_ttl := by
    have hfloor := (Int.lt_floor_add_one (limiter.capacity / limiter.refill_per_second)).le
    refine hfloor.trans ?_
    rw [TokenBucket.idle_ttl, hguard]
    exact_mod_cast le_max_right _ _
  exact ⟨zero_lt_one.trans_le hone, (div_le_iff₀ hpos).mp hround⟩

/-- Where a key expires no sooner than its bucket is full, nobody can tell. -/
theorem expiring_checks_eq {ttl : ℚ} (hpos : 0 < ttl) (hfull : rate.capacity ≤ ttl * rate.refill) :
    ∀ {cs : List (ℚ × Bool)} {state : Option (Bucket ℚ)} {last : Option ℚ},
      (cs.map Prod.fst).Pairwise (· ≤ ·) → ExpiresIdle ttl last cs →
      (∀ b ∈ state, rate.Within b ∧ last = some b.updated ∧ ∀ c ∈ cs, b.updated ≤ c.1) →
      expiring_checks rate state cs = checks rate state (cs.map Prod.fst)
  | [], _, _, _, _, _ => rfl
  | (now, expired) :: rest, state, last, hsorted, ⟨hidle, hrest⟩, hstate => by
      obtain ⟨hhead, htail⟩ := List.pairwise_cons.mp hsorted
      have hsame : check rate now (if expired then none else state) = check rate now state := by
        cases expired with
        | false => rfl
        | true =>
            cases state with
            | none => rfl
            | some b =>
                obtain ⟨hb, rfl, -⟩ := hstate b rfl
                have htake := Rate.take_idle hb hfull hpos (hidle rfl b.updated rfl)
                rw [if_pos rfl, bucket_script_eq, bucket_script_eq, htake]
      have hnext : ∀ b ∈ some (check rate now state).2, rate.Within b ∧ some now = some b.updated ∧
          ∀ c ∈ rest, b.updated ≤ c.1 := by
        intro b hb
        obtain rfl := Option.some.inj hb
        rw [bucket_script_eq]
        have hupdated : (rate.take now state).2.updated = now := by
          cases state with
          | none => exact Rate.take_updated
          | some b => exact Rate.updated_some.trans (max_eq_right ((hstate b rfl).2.2 _ List.mem_cons_self))
        refine ⟨Rate.take_within fun b hb => (hstate b hb).1, by rw [hupdated], fun c hc => ?_⟩
        rw [hupdated]
        exact hhead c.1 (List.mem_map_of_mem hc)
      rw [expiring_checks, hsame, expiring_checks_eq hpos hfull htail hrest hnext]
      rfl

/-- CORRECT: tokens in bounds; a run, a window and a wait as the rate says; and an expiry nobody can tell. -/
theorem token_bucket_bound (rate : Rate ℚ) (limiter : TokenBucket) :
    (∀ readings, ∀ c ∈ checks rate none readings, 0 ≤ c.2.tokens ∧ c.2.tokens ≤ rate.capacity) ∧
    (∀ earlier first later largest, (∀ t ∈ first :: later, t ≤ largest) →
      (admitted (checks rate (stored rate none earlier) (first :: later)) : ℚ) ≤
        rate.capacity + rate.refill * (largest - first)) ∧
    (∀ readings, readings.Pairwise (· ≤ ·) → ∀ s t, s ≤ t →
      (((checks rate none readings).filter fun c => s ≤ c.1 ∧ c.1 ≤ t ∧ c.2.allowed = true).length : ℚ) ≤
        rate.capacity + rate.refill * (t - s)) ∧
    (∀ earlier now later, (earlier ++ [now]).Pairwise (· ≤ ·) →
      (check rate now (stored rate none earlier)).1.allowed = false →
      now + (check rate now (stored rate none earlier)).1.retry_after ≤ later →
        (check rate later (stored rate none (earlier ++ [now]))).1.allowed = true) ∧
    ∀ cs : List (ℚ × Bool), (cs.map Prod.fst).Pairwise (· ≤ ·) → ExpiresIdle limiter.idle_ttl none cs →
      expiring_checks limiter.rate none cs = checks limiter.rate none (cs.map Prod.fst) := by
  have hnone : ∀ b ∈ (none : Option (Bucket ℚ)), rate.Within b := by simp
  refine ⟨fun readings => checks_within hnone, fun earlier first later largest hlargest => ?_,
    fun readings hsorted s t hst => ?_, fun earlier now later hsorted hrefused hlater => ?_, fun cs hsorted hidle => ?_⟩
  · rw [admitted_checks, stored_held]
    exact Rate.admitted_le (Rate.held_within hnone) hlargest
  · have hwindow := Rate.window_le (r := rate) hsorted hst
    rw [← checks_answers, List.filter_map, List.length_map] at hwindow
    exact hwindow
  · rw [stored_held] at hrefused hlater ⊢
    rw [bucket_script_eq] at hrefused hlater ⊢
    dsimp only at hrefused hlater
    rw [hrefused, if_neg Bool.false_ne_true] at hlater
    obtain ⟨b, hheld, hupdated⟩ := @Rate.updated_held ℚ _ _ rate none now earlier hsorted (by simp)
    rw [hheld]
    rw [Rate.held_append] at hheld
    obtain rfl := Option.some.inj hheld
    exact Rate.wait_admits hupdated hlater
  · obtain ⟨hpos, hfull⟩ := capacity_le_idle_ttl limiter
    exact expiring_checks_eq hpos hfull hsorted hidle (by simp)

end GuardMem.Limits
