import Mathlib.Algebra.Ring.Nat
import Mathlib.Data.List.Perm.Subperm
import Mathlib.Data.List.Sort
import Mathlib.Order.MinMax
import Mathlib.Tactic.Common

/-! The best few of a list, and as many of them as a budget pays for.

    `best` sorts by a key and keeps the first `k`; `IsBest` says what such an answer is, ties any way.
    CORRECT: `best` keeps an element exactly when fewer than `k` come ahead of it (`mem_best`); the first
    `k` of a list served in any order are the best of a longer list exactly when the answer can do without
    whatever the serving leaves out or brings late (`take_isBest_iff`, `serves_best_iff`); and a list has
    one order by its keys, its own, exactly when the keys increase strictly (`ordered_unique_iff`). -/

namespace Lib.Ranking

variable {α β : Type*} [LinearOrder β] (key : α → β)

/-- Sort by the key, ties as they stand, and keep the first `k`. -/
def best (k : ℕ) (xs : List α) : List α := (xs.insertionSort fun a b => key a ≤ key b).take k

/-- `y` comes ahead of `x`: its key is less, or the same and it stands before `x`. -/
def Ahead (xs : List α) (y x : α) : Prop := key y < key x ∨ key y = key x ∧ List.Sublist [y, x] xs

instance [DecidableEq α] (xs : List α) (y x : α) : Decidable (Ahead key xs y x) :=
  inferInstanceAs (Decidable (_ ∨ _))

/-- How many come ahead of `x`. -/
def rank [DecidableEq α] (xs : List α) (x : α) : ℕ := xs.countP fun y => Ahead key xs y x

/-- The answer is `k` of the list with the least keys, or all of it where there are fewer, least first. -/
structure IsBest (k : ℕ) (xs answer : List α) : Prop where
  nodup : answer.Nodup
  sub : answer ⊆ xs
  full : answer.length = min k xs.length
  sorted : answer.Pairwise fun a b => key a ≤ key b
  least : ∀ a ∈ answer, ∀ x ∈ xs, x ∉ answer → key a ≤ key x

/-- The longest start of a list that a budget pays for. -/
structure LongestStart (cost : α → ℕ) (budget : ℕ) (xs ys : List α) : Prop where
  start : ys <+: xs
  fits : (ys.map cost).sum ≤ budget
  longest : ∀ zs, zs <+: xs → (zs.map cost).sum ≤ budget → zs <+: ys

variable {key} {xs served pre post : List α} {x y : α} {k : ℕ}

/-! ### The order of two elements of a list -/

theorem pair_sublist (h : y ∈ pre) : List.Sublist [y, x] (pre ++ x :: post) :=
  (List.singleton_sublist.mpr h).append (List.cons_sublist_cons.mpr (List.nil_sublist _))

/-- Of two elements one stands before the other. -/
theorem pair_or (hx : x ∈ xs) (hy : y ∈ xs) (hne : y ≠ x) :
    List.Sublist [y, x] xs ∨ List.Sublist [x, y] xs := by
  obtain ⟨pre, post, rfl⟩ := List.append_of_mem hx
  rcases List.mem_append.mp hy with hpre | hpost
  · exact Or.inl (pair_sublist hpre)
  · have hin := (List.mem_cons.mp hpost).resolve_left hne
    exact Or.inr ((List.cons_sublist_cons.mpr (List.singleton_sublist.mpr hin)).trans
      (List.sublist_append_right _ _))

/-- What stands before `x` is in the part before it. -/
theorem mem_of_pair (hnd : (pre ++ x :: post).Nodup) (h : List.Sublist [y, x] (pre ++ x :: post)) :
    y ∈ pre := by
  obtain ⟨-, hnd', -⟩ := List.nodup_append.mp hnd
  have hpost : x ∉ post := (List.nodup_cons.mp hnd').1
  obtain ⟨l₁, l₂, heq, h₁, h₂⟩ := List.sublist_append_iff.mp h
  cases l₁ with
  | cons a l₁ =>
      obtain rfl : y = a := (List.cons.inj heq).1
      exact h₁.subset List.mem_cons_self
  | nil =>
      obtain rfl : [y, x] = l₂ := heq
      rcases List.sublist_cons_iff.mp h₂ with hsub | ⟨r, hr, hsub⟩
      · exact absurd (hsub.subset (by simp)) hpost
      · obtain rfl : [x] = r := (List.cons.inj hr).2
        exact absurd (hsub.subset (by simp)) hpost

/-- An element is among the first `k` exactly when fewer than `k` stand before it. -/
theorem mem_take_middle (hnd : (pre ++ x :: post).Nodup) :
    x ∈ (pre ++ x :: post).take k ↔ pre.length < k := by
  rw [List.take_append]
  constructor
  · intro h
    rcases List.mem_append.mp h with hpre | hrest
    · exact absurd rfl ((List.nodup_append.mp hnd).2.2 x (List.mem_of_mem_take hpre) x List.mem_cons_self)
    · by_contra hge
      rw [Nat.sub_eq_zero_of_le (not_lt.mp hge), List.take_zero] at hrest
      cases hrest
  · intro hlt
    obtain ⟨n, hn⟩ := Nat.exists_eq_succ_of_ne_zero (Nat.sub_ne_zero_of_lt hlt)
    rw [hn, List.take_succ_cons]
    exact List.mem_append_right _ List.mem_cons_self

theorem notMem_of_middle (hnd : (pre ++ x :: post).Nodup) (hy : y ∈ post) : y ∉ pre := fun hpre =>
  (List.nodup_append.mp hnd).2.2 y hpre y (List.mem_cons_of_mem _ hy) rfl

/-! ### What sorting keeps -/

theorem insertionSort_sorted : (xs.insertionSort fun a b => key a ≤ key b).Pairwise
    fun a b => key a ≤ key b := by
  have : Std.Total fun a b : α => key a ≤ key b := ⟨fun a b => le_total _ _⟩
  have : IsTrans α fun a b => key a ≤ key b := ⟨fun _ _ _ => le_trans⟩
  exact List.pairwise_insertionSort _ _

theorem best_sorted : (best key k xs).Pairwise fun a b => key a ≤ key b :=
  insertionSort_sorted.sublist (List.take_sublist _ _)

theorem mem_of_best (h : x ∈ best key k xs) : x ∈ xs :=
  (List.mem_insertionSort _).mp (List.mem_of_mem_take h)

theorem best_nodup (h : xs.Nodup) : (best key k xs).Nodup :=
  ((List.perm_insertionSort _ _).nodup_iff.mpr h).sublist (List.take_sublist _ _)

/-- In the sorted list, what stands before an element is what comes ahead of it. -/
theorem ahead_iff (hnd : xs.Nodup)
    (hsort : (xs.insertionSort fun a b => key a ≤ key b) = pre ++ x :: post) (hy : y ∈ xs) :
    Ahead key xs y x ↔ y ∈ pre := by
  have hperm := List.perm_insertionSort (fun a b => key a ≤ key b) xs
  have hnd' : (pre ++ x :: post).Nodup := hsort ▸ hperm.nodup_iff.mpr hnd
  have hle := @insertionSort_sorted _ _ _ key xs
  rw [hsort] at hle
  have hstable : ∀ {a b : α}, key a ≤ key b → List.Sublist [a, b] xs →
      List.Sublist [a, b] (pre ++ x :: post) := fun {a b} hab hsub =>
    hsort ▸ List.pair_sublist_insertionSort (r := fun a b => key a ≤ key b) hab hsub
  constructor
  · rintro (hlt | ⟨heq, hsub⟩)
    · have hin : y ∈ pre ++ x :: post := hsort ▸ hperm.mem_iff.mpr hy
      rcases List.mem_append.mp hin with hpre | hpost
      · exact hpre
      · rcases List.mem_cons.mp hpost with rfl | hpost
        · exact absurd hlt (lt_irrefl _)
        · have hxy := (List.pairwise_cons.mp (List.pairwise_append.mp hle).2.1).1 y hpost
          exact absurd hlt (not_lt.mpr hxy)
    · exact mem_of_pair hnd' (hstable heq.le hsub)
  · intro hpre
    have hyx : key y ≤ key x := (List.pairwise_append.mp hle).2.2 y hpre x List.mem_cons_self
    have hne : y ≠ x := fun h => (List.nodup_append.mp hnd').2.2 y hpre x List.mem_cons_self h
    rcases hyx.lt_or_eq with hlt | heq
    · exact Or.inl hlt
    · have hx : x ∈ xs := hperm.mem_iff.mp (hsort ▸ by simp)
      rcases pair_or hx hy hne with hsub | hsub
      · exact Or.inr ⟨heq, hsub⟩
      · obtain ⟨a, b, rfl⟩ := List.append_of_mem hpre
        have hback := hstable heq.ge hsub
        rw [List.append_assoc, List.cons_append] at hback hnd'
        have hxa := mem_of_pair hnd' hback
        exact absurd hnd' fun h => (List.nodup_append.mp h).2.2 x hxa x (by simp) rfl

/-- CORRECT: an element is among the best exactly when fewer than `k` come ahead of it. -/
theorem mem_best [DecidableEq α] (hnd : xs.Nodup) (hx : x ∈ xs) :
    x ∈ best key k xs ↔ rank key xs x < k := by
  have hperm := List.perm_insertionSort (fun a b => key a ≤ key b) xs
  obtain ⟨pre, post, hsort⟩ := List.append_of_mem (hperm.mem_iff.mpr hx)
  have hnd' : (pre ++ x :: post).Nodup := hsort ▸ hperm.nodup_iff.mpr hnd
  have hin : ∀ y ∈ pre ++ x :: post, y ∈ xs := fun y hy => hperm.mem_iff.mp (hsort ▸ hy)
  have hrank : rank key xs x = pre.length := by
    rw [rank, ← hperm.countP_eq, hsort, List.countP_append]
    have hpre : pre.countP (fun y => Ahead key xs y x) = pre.length :=
      List.countP_eq_length.mpr fun y hy =>
        decide_eq_true ((ahead_iff hnd hsort (hin y (List.mem_append_left _ hy))).mpr hy)
    have hrest : (x :: post).countP (fun y => Ahead key xs y x) = 0 := by
      refine List.countP_eq_zero.mpr fun y hy hahead => ?_
      have hpre := (ahead_iff hnd hsort (hin y (List.mem_append_right _ hy))).mp (of_decide_eq_true hahead)
      exact (List.nodup_append.mp hnd').2.2 y hpre y hy rfl
    omega
  rw [hrank, best, hsort]
  exact mem_take_middle hnd'

/-! ### Serving in another order -/

/-- What a full answer leaves out has `k` of the answer no farther than itself. -/
theorem IsBest.crowded {answer : List α} (h : IsBest key k xs answer) (hx : x ∈ xs) (hnot : x ∉ answer) :
    (answer.countP fun r => key r ≤ key x) = k := by
  have hcount : (answer.countP fun r => key r ≤ key x) = answer.length :=
    List.countP_eq_length.mpr fun r hr => decide_eq_true (h.least r hr x hx hnot)
  have hlen : answer.length ≠ xs.length := fun heq =>
    hnot (((h.nodup.subperm h.sub).perm_of_length_le heq.ge).mem_iff.mpr hx)
  have hfull := h.full
  omega

/-- CORRECT: the first `k` served are the best exactly when each element not served, and each served after
    one of a greater key, has `k` served ones in its stead. -/
theorem take_isBest_iff (hxs : xs.Nodup) (hserved : served.Nodup) (hsub : served ⊆ xs) :
    IsBest key k xs (served.take k) ↔
      (∀ s ∈ xs, s ∉ served → k ≤ served.countP fun r => key r ≤ key s) ∧
      ∀ pre x post, served = pre ++ x :: post → ∀ s ∈ post, key s < key x →
        k ≤ pre.countP fun r => key r ≤ key s := by
  have hnd : (served.take k).Nodup := hserved.sublist (List.take_sublist _ _)
  constructor
  · intro h
    refine ⟨fun s hs hnot => ?_, ?_⟩
    · rw [← h.crowded hs fun hin => hnot (List.mem_of_mem_take hin)]
      exact (List.take_sublist _ _).countP_le
    · rintro pre x post rfl s hs hlt
      have hsx : s ∈ xs := hsub (by simp [hs])
      have hspre := notMem_of_middle hserved hs
      -- an answer with `x` either misses `s` or has it after `x`
      have hx : x ∉ (pre ++ x :: post).take k := by
        intro hx
        by_cases hin : s ∈ (pre ++ x :: post).take k
        · have hsorted := h.sorted
          obtain ⟨n, hn⟩ := Nat.exists_eq_succ_of_ne_zero
            (Nat.sub_ne_zero_of_lt ((mem_take_middle hserved).mp hx))
          rw [List.take_append, hn, List.take_succ_cons] at hin hsorted
          rcases List.mem_append.mp hin with hp | hp
          · exact hspre (List.mem_of_mem_take hp)
          · rcases List.mem_cons.mp hp with rfl | hp
            · exact absurd hlt (lt_irrefl _)
            · have hle := (List.pairwise_cons.mp (List.pairwise_append.mp hsorted).2.1).1 s hp
              exact absurd hlt (not_lt.mpr hle)
        · exact absurd hlt (not_lt.mpr (h.least x hx s hsx hin))
      have hk : k ≤ pre.length := not_lt.mp fun hlt' => hx ((mem_take_middle hserved).mpr hlt')
      have htake : (pre ++ x :: post).take k = pre.take k := by
        rw [List.take_append, Nat.sub_eq_zero_of_le hk, List.take_zero, List.append_nil]
      have hcrowded := h.crowded hsx fun hin => hspre (List.mem_of_mem_take (htake ▸ hin))
      rw [htake] at hcrowded
      rw [← hcrowded]
      exact (List.take_sublist _ _).countP_le
  · rintro ⟨hleft, hlate⟩
    -- nothing of a lesser key comes after an element that is among the first `k`
    have hordered : ∀ {pre x post}, served = pre ++ x :: post → pre.length < k →
        ∀ s ∈ post, key x ≤ key s := by
      intro pre x post heq hlt s hs
      by_contra hgt
      have hcount := hlate pre x post heq s hs (not_le.mp hgt)
      have hlen := @List.countP_le_length _ (fun r => key r ≤ key s) pre
      omega
    refine ⟨hnd, fun x hx => hsub (List.mem_of_mem_take hx), ?_, ?_, fun x hx s hs hnot => ?_⟩
    · have hlen := (hserved.subperm hsub).length_le
      rw [List.length_take]
      rcases hlen.eq_or_lt with heq | hlt
      · rw [heq]
      · obtain ⟨s, hs, hnot⟩ : ∃ s ∈ xs, s ∉ served := by
          by_contra hall
          have hle := (hxs.subperm fun s hs => by_contra fun hnot => hall ⟨s, hs, hnot⟩).length_le
          omega
        have hcount := hleft s hs hnot
        have hle := @List.countP_le_length _ (fun r => key r ≤ key s) served
        omega
    · refine List.pairwise_iff_forall_sublist.mpr fun {x s} hpair => ?_
      obtain ⟨r₁, r₂, htake, hx, hs⟩ := List.cons_sublist_iff.mp hpair
      obtain ⟨pre, post, rfl⟩ := List.append_of_mem hx
      have hlen := congrArg List.length htake
      rw [List.length_take, List.length_append, List.length_append, List.length_cons] at hlen
      have heq : served = pre ++ x :: (post ++ r₂ ++ served.drop k) := by
        conv_lhs => rw [← List.take_append_drop k served, htake]
        simp
      exact hordered heq (by omega) s (by simp [List.singleton_sublist.mp hs])
    · obtain ⟨pre, post, rfl⟩ := List.append_of_mem (List.mem_of_mem_take hx)
      have hlt := (mem_take_middle hserved).mp hx
      by_contra hgt
      have hpost : ∀ r ∈ post, ¬ key r ≤ key s := fun r hr hle =>
        hgt ((hordered rfl hlt r hr).trans hle)
      have hcount : (pre ++ x :: post).countP (fun r => key r ≤ key s) ≤ pre.length := by
        rw [List.countP_append, List.countP_cons, List.countP_eq_zero.mpr fun r hr h =>
          hpost r hr (of_decide_eq_true h)]
        simp [hgt, List.countP_le_length]
      by_cases hin : s ∈ pre ++ x :: post
      · rcases List.mem_append.mp hin with hp | hp
        · refine hnot ?_
          rw [List.take_append, List.take_of_length_le hlt.le]
          exact List.mem_append_left _ hp
        · rcases List.mem_cons.mp hp with rfl | hp
          · exact hgt le_rfl
          · exact hgt (hordered rfl hlt s hp)
      · have := hleft s hs hin
        omega

/-- CORRECT: of a list served class by class, nearest first in each, the first `k` are the best exactly
    when each element not served, and each of a later class than one of a greater key, has `k` served ones
    in its stead. -/
theorem serves_best_iff {cls : α → ℕ} (hxs : xs.Nodup) (hserved : served.Nodup) (hsub : served ⊆ xs)
    (hcls : served.Pairwise fun a b => cls a < cls b ∨ cls a = cls b ∧ key a ≤ key b) :
    IsBest key k xs (served.take k) ↔
      (∀ s ∈ xs, s ∉ served → k ≤ served.countP fun r => key r ≤ key s) ∧
      ∀ x ∈ served, ∀ s ∈ served, cls x < cls s → key s < key x →
        k ≤ served.countP fun r => cls r ≤ cls x ∧ key r ≤ key s := by
  rw [take_isBest_iff hxs hserved hsub]
  refine and_congr_right fun _ => ⟨fun h x hx s hs hlater hlt => ?_, ?_⟩
  · obtain ⟨pre, post, rfl⟩ := List.append_of_mem hx
    obtain ⟨-, hrest, hpre⟩ := List.pairwise_append.mp hcls
    have hpost : s ∈ post := by
      rcases List.mem_append.mp hs with hp | hp
      · rcases hpre s hp x List.mem_cons_self with h | h <;> omega
      · exact (List.mem_cons.mp hp).resolve_left fun heq => absurd hlt (heq ▸ lt_irrefl _)
    refine (h pre x post rfl s hpost hlt).trans ?_
    rw [List.countP_append]
    refine (List.countP_mono_left fun r hr hle => ?_).trans (Nat.le_add_right _ _)
    have hrx : cls r ≤ cls x := by
      rcases hpre r hr x List.mem_cons_self with h | h <;> omega
    simpa [hrx] using hle
  · rintro h pre x post rfl s hs hlt
    obtain ⟨-, hrest, hpre⟩ := List.pairwise_append.mp hcls
    have hafter := (List.pairwise_cons.mp hrest).1
    have hlater : cls x < cls s := by
      rcases hafter s hs with h | ⟨-, hle⟩
      · exact h
      · exact absurd hlt (not_lt.mpr hle)
    refine (h x (by simp) s (by simp [hs]) hlater hlt).trans ?_
    have hnone : (x :: post).countP (fun r => cls r ≤ cls x ∧ key r ≤ key s) = 0 := by
      refine List.countP_eq_zero.mpr fun r hr hcount => ?_
      obtain ⟨hclass, hkey⟩ := of_decide_eq_true hcount
      rcases List.mem_cons.mp hr with rfl | hr
      · exact absurd hlt (not_lt.mpr hkey)
      · rcases hafter r hr with h | ⟨-, hle⟩
        · omega
        · exact absurd hlt (not_lt.mpr (hle.trans hkey))
    rw [List.countP_append, hnone, Nat.add_zero]
    exact List.countP_mono_left fun r _ hr => decide_eq_true (of_decide_eq_true hr).2

/-! ### A whole list in the order of its keys -/

/-- Every list has an order by its keys. -/
theorem exists_ordered (key : α → β) (xs : List α) :
    ∃ ys : List α, ys.Perm xs ∧ ys.Pairwise fun a b => key a ≤ key b :=
  ⟨_, List.perm_insertionSort _ xs, List.pairwise_insertionSort (fun a b => key a ≤ key b) xs⟩

/-- Strictly increasing keys leave one order. -/
theorem ordered_eq {ys : List α} (hxs : xs.Pairwise fun a b => key a < key b) (hperm : ys.Perm xs)
    (hys : ys.Pairwise fun a b => key a ≤ key b) : ys = xs := by
  refine hperm.eq_of_pairwise (fun a b ha hb hab hba => ?_) hys (hxs.imp le_of_lt)
  have hinj := (List.pairwise_map (f := key).mpr hxs : (xs.map key).Pairwise (· < ·)).imp ne_of_lt
  exact List.inj_on_of_nodup_map hinj (hperm.mem_iff.mp ha) hb (le_antisymm hab hba)

/-- CORRECT: an order by the keys can only be the list itself exactly when the keys increase strictly. -/
theorem ordered_unique_iff (hnodup : xs.Nodup) :
    (∀ ys, ys.Perm xs → ys.Pairwise (fun a b => key a ≤ key b) → ys = xs) ↔
      xs.Pairwise fun a b => key a < key b := by
  refine ⟨fun hunique => ?_, fun hxs ys hperm hys => ordered_eq hxs hperm hys⟩
  have hordered : xs.Pairwise fun a b => key a ≤ key b := by
    obtain ⟨ys, hperm, hys⟩ := exists_ordered key xs
    exact hunique ys hperm hys ▸ hys
  -- two neighbours with one key could stand the other way round
  induction xs with
  | nil => exact .nil
  | cons a as ih =>
      obtain ⟨hleast, hrest⟩ := List.pairwise_cons.mp hordered
      obtain ⟨hnew, hnodup⟩ := List.nodup_cons.mp hnodup
      have htail := ih hnodup (fun ys hperm hys => by
        have hcons := hunique (a :: ys) (hperm.cons a)
          (List.pairwise_cons.mpr ⟨fun b hb => hleast b (hperm.mem_iff.mp hb), hys⟩)
        exact (List.cons.inj hcons).2) hrest
      refine List.pairwise_cons.mpr ⟨?_, htail⟩
      cases as with
      | nil => simp
      | cons b bs =>
          obtain ⟨hnext, hlast⟩ := List.pairwise_cons.mp htail
          have hab : key a < key b := by
            refine lt_of_le_of_ne (hleast b List.mem_cons_self) fun heq => ?_
            have hswapped : (b :: a :: bs).Pairwise fun a b => key a ≤ key b := by
              refine List.pairwise_cons.mpr ⟨?_, List.pairwise_cons.mpr ⟨?_, hlast.imp le_of_lt⟩⟩
              · rintro c (_ | ⟨_, hc⟩)
                · exact heq.ge
                · exact (hnext c hc).le
              · exact fun c hc => hleast c (List.mem_cons_of_mem _ hc)
            have hsame := hunique _ (List.Perm.swap a b bs) hswapped
            exact hnew ((List.cons.inj hsame).1 ▸ List.mem_cons_self)
          rintro c (_ | ⟨_, hc⟩)
          · exact hab
          · exact hab.trans (hnext c hc)

end Lib.Ranking
