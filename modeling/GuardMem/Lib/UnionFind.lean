import Mathlib.Data.List.Induction
import Mathlib.Logic.Function.Basic
import Mathlib.Logic.Relation
import Mathlib.Order.Bounds.Basic
import Mathlib.Order.MinMax
import Mathlib.Tactic.Common

/-! Disjoint sets of numbers, each named by its least member.

    Every parent is at most its child, so roots are least, and merging two sets keeps the lower root.
    Finding halves the path it walks and moves no root. CORRECT: after merging the pairs of a list, two
    numbers share a root exactly where the pairs connect them (`same_root_merge`), and on an array of
    parents the loops end in time, with the same answer (`find_table`, `union_table`). -/

namespace Lib

/-- Parent pointers, none of which leads upward. -/
structure Forest where
  parent : ℕ → ℕ
  le : ∀ i, parent i ≤ i

namespace Forest

/-- Every number on its own. -/
def singletons : Forest := ⟨id, fun _ => le_rfl⟩

/-- Point `i` at `j`, which is no higher. -/
def point (f : Forest) (i j : ℕ) (h : j ≤ i) : Forest where
  parent := Function.update f.parent i j
  le k := by
    rcases eq_or_ne k i with rfl | hk
    · rwa [Function.update_self]
    · rw [Function.update_of_ne hk]
      exact f.le k

theorem lt_of_ne (f : Forest) {i : ℕ} (h : f.parent i ≠ i) : f.parent (f.parent i) < i :=
  (f.le _).trans_lt (lt_of_le_of_ne (f.le i) h)

/-- Follow the parents to the root, pointing every other node on the way at its grandparent. -/
def find (f : Forest) (i : ℕ) : ℕ × Forest :=
  if h : f.parent i = i then (i, f)
  else (f.point i (f.parent (f.parent i)) (f.lt_of_ne h).le).find (f.parent (f.parent i))
  termination_by i
  decreasing_by exact f.lt_of_ne h

/-- Find one after another. -/
def find_all (f : Forest) : List ℕ → List ℕ
  | [] => []
  | i :: rest => (f.find i).1 :: (f.find i).2.find_all rest

/-- The root, with nothing moved. -/
def root (f : Forest) (i : ℕ) : ℕ :=
  if f.parent i = i then i else f.root (f.parent i)
  termination_by i
  decreasing_by exact lt_of_le_of_ne (f.le i) (by assumption)

/-- Merge the sets of `i` and `j` under the lower root. -/
def union (f : Forest) (i j : ℕ) : Forest :=
  let (root_i, f) := f.find i
  let (root_j, f) := f.find j
  if root_i = root_j then f
  else f.point (max root_i root_j) (min root_i root_j) min_le_max

/-- Merge the pairs of a list, one after another. -/
def merge (f : Forest) (pairs : List (ℕ × ℕ)) : Forest := pairs.foldl (fun f p => f.union p.1 p.2) f

variable {f : Forest} {i j k : ℕ}

/-! ### Roots -/

theorem root_of_root (h : f.parent i = i) : f.root i = i := by
  rw [root, if_pos h]

theorem root_parent : f.root (f.parent i) = f.root i := by
  by_cases h : f.parent i = i
  · rw [h]
  · conv_rhs => rw [root, if_neg h]

/-- A fact about the root of each node: it holds of roots, and of a node if of its parent. -/
theorem root_induction {P : ℕ → Prop} (hroot : ∀ i, f.parent i = i → P i)
    (hparent : ∀ i, f.parent i ≠ i → P (f.parent i) → P i) (i : ℕ) : P i := by
  induction i using Nat.strong_induction_on with
  | _ i ih =>
      by_cases h : f.parent i = i
      · exact hroot i h
      · exact hparent i h (ih _ (lt_of_le_of_ne (f.le i) h))

theorem parent_root (i : ℕ) : f.parent (f.root i) = f.root i := by
  refine root_induction (f := f) (P := fun i => f.parent (f.root i) = f.root i) (fun i h => ?_)
    (fun i h ih => ?_) i
  · rwa [root_of_root h]
  · rwa [root_parent] at ih

theorem root_root (i : ℕ) : f.root (f.root i) = f.root i := root_of_root (parent_root i)

theorem root_le (i : ℕ) : f.root i ≤ i := by
  refine root_induction (f := f) (P := fun i => f.root i ≤ i) (fun i h => ?_) (fun i h ih => ?_) i
  · exact (root_of_root h).le
  · rw [root_parent] at ih
    exact ih.trans (f.le i)

/-- A root is the least of its set. -/
theorem root_le_of_same (h : f.root i = f.root j) : f.root i ≤ j := h ▸ root_le j

@[simp] theorem root_singletons (i : ℕ) : singletons.root i = i := root_of_root rfl

/-! ### Finding moves no root -/

@[simp] theorem point_self {h : j ≤ i} : (f.point i j h).parent i = j := Function.update_self ..

theorem point_of_ne {h : j ≤ i} (hk : k ≠ i) : (f.point i j h).parent k = f.parent k :=
  Function.update_of_ne hk _ _

/-- Halving a path keeps every root. -/
theorem root_halve (hi : f.parent i ≠ i) (k : ℕ) :
    (f.point i (f.parent (f.parent i)) (f.lt_of_ne hi).le).root k = f.root k := by
  set g := f.point i (f.parent (f.parent i)) (f.lt_of_ne hi).le with hg
  have hgi : g.parent i = f.parent (f.parent i) := point_self
  induction k using Nat.strong_induction_on with
  | _ k ih =>
      rcases eq_or_ne k i with rfl | hk
      · have hlt := f.lt_of_ne hi
        rw [← g.root_parent, hgi, ih _ hlt, root_parent, root_parent]
      · have hgk : g.parent k = f.parent k := point_of_ne hk
        by_cases h : f.parent k = k
        · rw [root_of_root h, root_of_root (hgk.trans h)]
        · rw [← g.root_parent, hgk, ih _ (lt_of_le_of_ne (f.le k) h), root_parent]

/-- CORRECT: finding returns the root and moves none. -/
theorem find_spec (f : Forest) (i : ℕ) :
    (f.find i).1 = f.root i ∧ ∀ k, (f.find i).2.root k = f.root k := by
  induction i using Nat.strong_induction_on generalizing f with
  | _ i ih =>
      rw [find]
      split_ifs with h
      · exact ⟨(root_of_root h).symm, fun _ => rfl⟩
      · obtain ⟨hfound, hkept⟩ := ih _ (f.lt_of_ne h) (f.point i _ (f.lt_of_ne h).le)
        refine ⟨?_, fun k => (hkept k).trans (root_halve h k)⟩
        rw [hfound, root_halve h, root_parent, root_parent]

theorem find_all_eq (is : List ℕ) : ∀ f : Forest, f.find_all is = is.map f.root := by
  induction is with
  | nil => exact fun f => rfl
  | cons i rest ih =>
      intro f
      obtain ⟨hfound, hkept⟩ := f.find_spec i
      rw [find_all, ih, hfound, List.map_cons, funext hkept]

/-! ### Merging -/

/-- Pointing one root at a lower one moves the first's set. -/
theorem root_link {lo hi : ℕ} (hlt : lo < hi) (hlo : f.parent lo = lo) (hhi : f.parent hi = hi) (k : ℕ) :
    (f.point hi lo hlt.le).root k = if f.root k = hi then lo else f.root k := by
  set g := f.point hi lo hlt.le with hg
  have hglo : g.root lo = lo := root_of_root ((point_of_ne hlt.ne).trans hlo)
  refine root_induction (f := f) (P := fun k => g.root k = if f.root k = hi then lo else f.root k)
    (fun k h => ?_) (fun k h ih => ?_) k
  · rw [root_of_root h]
    rcases eq_or_ne k hi with rfl | hk
    · rw [if_pos rfl, ← g.root_parent, hg, point_self, ← hg, hglo]
    · rw [if_neg hk]
      exact root_of_root ((point_of_ne hk).trans h)
  · have hk : k ≠ hi := fun heq => h (heq ▸ hhi)
    have hgk : g.parent k = f.parent k := point_of_ne hk
    rw [← g.root_parent, hgk, ih, root_parent]

theorem root_union (f : Forest) (i j k : ℕ) : (f.union i j).root k =
    if f.root k = max (f.root i) (f.root j) then min (f.root i) (f.root j) else f.root k := by
  obtain ⟨hi, hkept⟩ := f.find_spec i
  obtain ⟨hj, hkept'⟩ := (f.find i).2.find_spec j
  rw [hkept] at hj
  have hroots : ∀ k, (f.find i).2.find j |>.2.root k = f.root k := fun k => (hkept' k).trans (hkept k)
  set g := ((f.find i).2.find j).2 with hg
  have hparent : ∀ k, g.parent (f.root k) = f.root k := fun k => by
    have := g.parent_root k
    rwa [hroots k] at this
  have hunion : f.union i j = if f.root i = f.root j then g
      else g.point (max (f.root i) (f.root j)) (min (f.root i) (f.root j)) min_le_max := by
    simp only [union, hi, hj, ← hg]
  rw [hunion]
  split_ifs with hsame hk hk
  · rw [hroots, hk, hsame, max_self, min_self]
  · exact hroots k
  all_goals
    have hlt : min (f.root i) (f.root j) < max (f.root i) (f.root j) := by omega
    have hmin : g.parent (min (f.root i) (f.root j)) = min (f.root i) (f.root j) := by
      rcases min_choice (f.root i) (f.root j) with h | h <;> rw [h, hparent]
    have hmax : g.parent (max (f.root i) (f.root j)) = max (f.root i) (f.root j) := by
      rcases max_choice (f.root i) (f.root j) with h | h <;> rw [h, hparent]
    rw [root_link hlt hmin hmax, hroots]
  · exact if_pos hk
  · exact if_neg hk

/-- What is related to nothing but itself is alone in its class. -/
theorem eqvGen_alone {α : Type*} {r : α → α → Prop} {i j : α} (h : ∀ k, r i k ∨ r k i → k = i)
    (hij : Relation.EqvGen r i j) : j = i := by
  suffices hboth : ∀ a b, Relation.EqvGen r a b → (a = i ↔ b = i) from (hboth i j hij).mp rfl
  intro a b hab
  induction hab with
  | rel a b hlink =>
      constructor
      · rintro rfl
        exact h b (Or.inl hlink)
      · rintro rfl
        exact h a (Or.inr hlink)
  | refl a => rfl
  | symm a b _ ih => exact ih.symm
  | trans a b c _ _ ih ih' => exact ih.trans ih'

/-- The roots tell the classes of a relation apart. -/
def Classes (f : Forest) (r : ℕ → ℕ → Prop) : Prop := ∀ i j, f.root i = f.root j ↔ Relation.EqvGen r i j

/-- A root is the least number its set has. -/
theorem Classes.isLeast {r : ℕ → ℕ → Prop} (h : f.Classes r) (i : ℕ) :
    IsLeast {j | Relation.EqvGen r i j} (f.root i) :=
  ⟨(h _ _).mp (root_root i).symm, fun _ hj => root_le_of_same ((h _ _).mpr hj)⟩

theorem Classes.union {r : ℕ → ℕ → Prop} (h : f.Classes r) (a b : ℕ) :
    (f.union a b).Classes fun i j => r i j ∨ (i = a ∧ j = b) := by
  have hold : ∀ {i j}, f.root i = f.root j →
      Relation.EqvGen (fun i j => r i j ∨ (i = a ∧ j = b)) i j := fun hij =>
    ((h _ _).mp hij).mono fun _ _ => Or.inl
  have hab : Relation.EqvGen (fun i j => r i j ∨ (i = a ∧ j = b)) a b := .rel _ _ (Or.inr ⟨rfl, rfl⟩)
  -- Whatever its root, a node is joined to the one that names its set now.
  have hnamed : ∀ k, Relation.EqvGen (fun i j => r i j ∨ (i = a ∧ j = b)) k ((f.union a b).root k) := by
    intro k
    rw [root_union]
    split_ifs with hk
    · rcases max_choice (f.root a) (f.root b) with hmax | hmax <;> rw [hmax] at hk <;>
        rcases min_choice (f.root a) (f.root b) with hmin | hmin <;> rw [hmin]
      · exact hold (hk.trans (root_root a).symm)
      · exact (hold hk).trans _ _ _ (hab.trans _ _ _ (hold (root_root b).symm))
      · exact (hold hk).trans _ _ _ (hab.symm.trans _ _ _ (hold (root_root a).symm))
      · exact hold (hk.trans (root_root b).symm)
    · exact hold (root_root k).symm
  intro i j
  constructor
  · intro hij
    exact (hnamed i).trans _ _ _ (hij ▸ (hnamed j).symm)
  · intro hij
    induction hij with
    | rel x y hxy =>
        rcases hxy with hxy | ⟨rfl, rfl⟩
        · rw [root_union, root_union, (h x y).mpr (.rel _ _ hxy)]
        · rw [root_union, root_union]
          rcases le_total (f.root x) (f.root y) with hle | hle
          · rw [max_eq_right hle, min_eq_left hle, if_pos rfl]
            split_ifs <;> rfl
          · rw [max_eq_left hle, min_eq_right hle, if_pos rfl]
            split_ifs <;> rfl
    | refl x => rfl
    | symm x y _ ih => exact ih.symm
    | trans x y z _ _ ih ih' => exact ih.trans ih'

/-- CORRECT: the roots after a merge tell apart what the pairs leave apart. -/
theorem same_root_merge (pairs : List (ℕ × ℕ)) :
    (singletons.merge pairs).Classes fun i j => (i, j) ∈ pairs := by
  induction pairs using List.reverseRecOn with
  | nil =>
      intro i j
      simp only [merge, List.foldl_nil, root_singletons, List.not_mem_nil]
      constructor
      · rintro rfl
        exact .refl i
      · intro hij
        induction hij with
        | rel _ _ h => exact h.elim
        | refl _ => rfl
        | symm _ _ _ ih => exact ih.symm
        | trans _ _ _ _ _ ih ih' => exact ih.trans ih'
  | append_singleton pairs p ih =>
      have hstep := ih.union p.1 p.2
      rw [merge, List.foldl_append]
      intro i j
      refine (hstep i j).trans ?_
      simp only [List.mem_append, List.mem_singleton, Prod.ext_iff]

/-- Merging the pairs of an equivalence names each set by its least member. -/
theorem root_merge_eq {pairs : List (ℕ × ℕ)} {name : ℕ → ℕ} {n : ℕ} (hle : ∀ i < n, name i ≤ i)
    (hname : ∀ i < n, name (name i) = name i) (hin : ∀ p ∈ pairs, p.1 < n ∧ p.2 < n ∧ name p.1 = name p.2)
    (hpairs : ∀ i j, i < j → j < n → name i = name j → (i, j) ∈ pairs) (hi : i < n) :
    (singletons.merge pairs).root i = name i := by
  have hclasses := same_root_merge pairs
  have hsound : ∀ {i j}, Relation.EqvGen (fun i j => (i, j) ∈ pairs) i j → name i = name j := by
    intro i j hij
    induction hij with
    | rel _ _ h => exact (hin _ h).2.2
    | refl _ => rfl
    | symm _ _ _ ih => exact ih.symm
    | trans _ _ _ _ _ ih ih' => exact ih.trans ih'
  have hroot : name ((singletons.merge pairs).root i) = name i :=
    hsound ((hclasses _ _).mp (root_root i))
  have hrootlt : (singletons.merge pairs).root i < n := (root_le i).trans_lt hi
  have hnamelt : name i < n := (hle i hi).trans_lt hi
  have hsame : (singletons.merge pairs).root i = (singletons.merge pairs).root (name i) := by
    rcases (hle i hi).lt_or_eq with hlt | heq
    · exact (hclasses _ _).mpr (.symm _ _ (.rel _ _ (hpairs _ _ hlt hi (hname i hi))))
    · rw [heq]
  exact le_antisymm (root_le_of_same hsame) (hroot ▸ hle _ hrootlt)

/-! ### On an array of parents -/

/-- The parents of the first `n` numbers. -/
def table (f : Forest) (n : ℕ) : List ℕ := (List.range n).map f.parent

/-- The loop of `find` on an array, given up after `fuel` turns or at a missing entry. -/
def find_in : ℕ → List ℕ → ℕ → Option (ℕ × List ℕ)
  | 0, _, _ => none
  | fuel + 1, parent, node => do
      let up ← parent[node]?
      if up = node then some (node, parent)
      else
        let top ← parent[up]?
        find_in fuel (parent.set node top) top

/-- `union` on an array, in place. -/
def union_in (fuel : ℕ) (parent : List ℕ) (left right : ℕ) : Option (List ℕ) := do
  let (root_left, parent) ← find_in fuel parent left
  let (root_right, parent) ← find_in fuel parent right
  if root_left ≠ root_right then some (parent.set (max root_left root_right) (min root_left root_right))
  else some parent

/-- Find one after another, in place. -/
def find_all_in (fuel : ℕ) (parent : List ℕ) : List ℕ → Option (List ℕ)
  | [] => some []
  | i :: rest => do
      let (root, parent) ← find_in fuel parent i
      some (root :: (← find_all_in fuel parent rest))

variable {n fuel : ℕ}

theorem getElem?_table (h : i < n) : (f.table n)[i]? = some (f.parent i) := by
  simp [table, h]

theorem point_table {h : j ≤ i} : (f.point i j h).table n = (f.table n).set i j := by
  refine List.ext_getElem? fun k => ?_
  rw [List.getElem?_set]
  by_cases hk : k < n
  · rw [getElem?_table hk]
    rcases eq_or_ne i k with rfl | hik
    · rw [if_pos rfl, if_pos (by simpa [table] using hk), point_self]
    · rw [if_neg hik, getElem?_table hk, point_of_ne hik.symm]
  · have hnone : ∀ g : Forest, (g.table n)[k]? = none := fun g => by simp [table, not_lt.mp hk]
    rw [hnone, hnone]
    split_ifs with hik hin
    · subst hik
      exact absurd (by simpa [table] using hin) hk
    · rfl
    · rfl

/-- CORRECT: each turn lowers the node, so the loop ends within as many turns as it has numbers below it. -/
theorem find_table (hi : i < n) (hfuel : i < fuel) :
    find_in fuel (f.table n) i = some ((f.find i).1, (f.find i).2.table n) := by
  induction i using Nat.strong_induction_on generalizing f fuel with
  | _ i ih =>
      cases fuel with
      | zero => omega
      | succ fuel =>
          have hup : f.parent i < n := (f.le i).trans_lt hi
          rw [find_in, getElem?_table hi, find]
          by_cases h : f.parent i = i
          · simp [h]
          · have hlt := f.lt_of_ne h
            have hturn := @ih _ hlt (f.point i _ hlt.le) fuel (hlt.trans hi) (by omega)
            simp only [h, if_false, dif_neg, not_false_eq_true, Option.bind_eq_bind, Option.bind_some,
              getElem?_table hup]
            rw [← point_table (h := hlt.le)]
            exact hturn

theorem union_table (hi : i < n) (hj : j < n) (hfuel : n ≤ fuel) :
    union_in fuel (f.table n) i j = some ((f.union i j).table n) := by
  rw [union_in, find_table hi (hi.trans_le hfuel)]
  simp only [Option.bind_eq_bind, Option.bind_some, find_table hj (hj.trans_le hfuel), union]
  by_cases h : (f.find i).1 = ((f.find i).2.find j).1
  · rw [if_neg (not_not.mpr h), if_pos h]
  · rw [if_pos h, if_neg h, point_table]

theorem find_all_table {is : List ℕ} (his : ∀ i ∈ is, i < n) (hfuel : n ≤ fuel) :
    find_all_in fuel (f.table n) is = some (f.find_all is) := by
  induction is generalizing f with
  | nil => rfl
  | cons i is ih =>
      have hi := his i List.mem_cons_self
      rw [find_all_in, find_table hi (hi.trans_le hfuel)]
      simp only [Option.bind_eq_bind, Option.bind_some, ih fun j hj => his j (List.mem_cons_of_mem _ hj),
        find_all]

end Forest

end Lib
