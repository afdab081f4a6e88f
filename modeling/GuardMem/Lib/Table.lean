import Mathlib.Data.Finset.Dedup
import Mathlib.Data.Finset.Insert
import Mathlib.Data.Finset.Card
import Mathlib.Data.List.Forall2
import Mathlib.Data.List.Induction
import Mathlib.Data.List.Nodup
import Mathlib.Data.List.Perm.Basic
import Mathlib.Tactic.Common

/-! Tables as lists of rows with a primary key.

    `insertNew` is `INSERT ... ON CONFLICT (key) DO NOTHING`, `updateWhere` is
    `UPDATE ... SET f WHERE p` and `merge` is `MERGE ... SET`. Rows keep their insertion order and are
    never removed. -/

namespace Lib.Table

variable {α κ : Type*} [DecidableEq κ] (key : α → κ)

/-- `INSERT ... ON CONFLICT (key) DO NOTHING`. -/
def insertNew (x : α) (t : List α) : List α :=
  if key x ∈ t.map key then t else t ++ [x]

/-- `UPDATE ... SET f WHERE p`. -/
def updateWhere (p : α → Bool) (f : α → α) (t : List α) : List α :=
  t.map fun r => if p r then f r else r

variable {key} {t : List α} {x r : α} {p : α → Bool} {f : α → α}

/-! ### Keys -/

theorem nodup_eraseDups {κ : Type*} [BEq κ] [LawfulBEq κ] {keys : List κ} : keys.eraseDups.Nodup := by
  suffices hall : ∀ n, ∀ keys : List κ, keys.length ≤ n → keys.eraseDups.Nodup from hall _ keys (Nat.le_refl _)
  intro n
  induction n with
  | zero =>
      intro keys hkeys
      simp [List.length_eq_zero_iff.mp (Nat.le_zero.mp hkeys)]
  | succ n ih =>
      rintro (_ | ⟨k, keys⟩) hkeys
      · simp
      · rw [List.eraseDups_cons]
        refine List.nodup_cons.mpr ⟨by simp, ih _ ?_⟩
        have hfilter := List.length_filter_le (fun k' => !k' == k) keys
        rw [List.length_cons] at hkeys
        omega

/-- Keys zipped with as many values: each is found, with the value at its place. -/
theorem lookup_zip {κ β : Type*} [BEq κ] [LawfulBEq κ] {k : κ} : ∀ {keys : List κ} {values : List β},
    keys.length = values.length → k ∈ keys →
      ∃ (i : ℕ) (v : β), keys[i]? = some k ∧ values[i]? = some v ∧ (keys.zip values).lookup k = some v
  | [], _, _, hk => by simp at hk
  | _ :: _, [], hlength, _ => by simp at hlength
  | key :: keys, v :: values, hlength, hk => by
      rw [List.zip_cons_cons, List.lookup_cons]
      by_cases heq : k = key
      · exact ⟨0, v, by simp [heq], rfl, by simp [heq]⟩
      · obtain ⟨i, w, hi, hw, hfound⟩ :=
          lookup_zip (by simpa using hlength) ((List.mem_cons.mp hk).resolve_left heq)
        exact ⟨i + 1, w, hi, hw, by rw [beq_false_of_ne heq]; exact hfound⟩

/-- Rows that are each taken or refused are all taken, or none is. -/
theorem mapM_eq_some_iff {β : Type*} {g : α → Option β} {taken : α → Prop} {row : α → β}
    (hg : ∀ x y, g x = some y ↔ taken x ∧ y = row x) {ys : List β} : ∀ {xs : List α},
    xs.mapM g = some ys ↔ (∀ x ∈ xs, taken x) ∧ ys = xs.map row := by
  intro xs
  induction xs generalizing ys with
  | nil => simp [eq_comm]
  | cons x xs ih =>
      simp only [List.mapM_cons, Option.bind_eq_bind, Option.bind_eq_some_iff, hg, ih, Option.pure_def,
        Option.some.injEq, List.forall_mem_cons, List.map_cons]
      constructor
      · rintro ⟨_, ⟨hx, rfl⟩, _, ⟨hxs, rfl⟩, rfl⟩
        exact ⟨⟨hx, hxs⟩, rfl⟩
      · rintro ⟨⟨hx, hxs⟩, rfl⟩
        exact ⟨_, ⟨hx, rfl⟩, _, ⟨hxs, rfl⟩, rfl⟩

/-- What a rewritten list is reordered to is a reordering, rewritten. -/
theorem exists_of_perm_map {β : Type*} {g : α → β} {xs : List α} {ys : List β} (h : ys.Perm (xs.map g)) :
    ∃ zs : List α, zs.Perm xs ∧ ys = zs.map g := by
  have hrows : List.Forall₂ (fun y x => y = g x) (xs.map g) xs :=
    List.forall₂_map_left_iff.mpr (List.forall₂_same.mpr fun _ _ => rfl)
  obtain ⟨zs, hzs, hperm⟩ := List.perm_comp_forall₂ h hrows
  exact ⟨zs, hperm, List.forall₂_eq_eq_eq.le _ _ (List.forall₂_map_right_iff.mpr hzs)⟩

/-! ### Inserts -/

theorem insertNew_old (h : key x ∈ t.map key) : insertNew key x t = t := if_pos h

theorem insertNew_new (h : key x ∉ t.map key) : insertNew key x t = t ++ [x] := if_neg h

theorem mem_insertNew : r ∈ insertNew key x t ↔ r ∈ t ∨ (r = x ∧ key x ∉ t.map key) := by
  by_cases h : key x ∈ t.map key
  · simp [insertNew_old h, h]
  · simp [insertNew_new h, h]

theorem mem_insertNew_of_mem (h : r ∈ t) : r ∈ insertNew key x t := mem_insertNew.mpr (Or.inl h)

/-- After the insert the key is there, whoever put it there. -/
theorem key_mem_insertNew : key x ∈ (insertNew key x t).map key := by
  by_cases h : key x ∈ t.map key
  · rwa [insertNew_old h]
  · rw [insertNew_new h]; simp

theorem mem_keys_insertNew {k : κ} : k ∈ (insertNew key x t).map key ↔ k ∈ t.map key ∨ k = key x := by
  by_cases hx : key x ∈ t.map key
  · rw [insertNew_old hx]
    exact (or_iff_left_of_imp fun h => h ▸ hx).symm
  · rw [insertNew_new hx, List.map_append, List.mem_append, List.map_singleton, List.mem_singleton]

theorem nodup_insertNew (h : (t.map key).Nodup) : ((insertNew key x t).map key).Nodup := by
  by_cases hx : key x ∈ t.map key
  · rwa [insertNew_old hx]
  · rw [insertNew_new hx, List.map_append, List.nodup_append]
    refine ⟨h, List.nodup_singleton _, ?_⟩
    rintro a ha b hb rfl
    rw [List.map_singleton, List.mem_singleton] at hb
    exact hx (hb ▸ ha)

/-- Rows told apart by their key alone go in as they would by themselves. -/
theorem filter_insertNew (h : ∀ r, key r = key x → p r = p x) :
    (insertNew key x t).filter p = if p x then insertNew key x (t.filter p) else t.filter p := by
  by_cases hx : key x ∈ t.map key
  · rw [insertNew_old hx]
    split
    · next hp =>
        obtain ⟨r, hr, hk⟩ := List.mem_map.mp hx
        have hin : key x ∈ (t.filter p).map key :=
          List.mem_map.mpr ⟨r, List.mem_filter.mpr ⟨hr, (h r hk).trans hp⟩, hk⟩
        rw [insertNew_old hin]
    · rfl
  · have hnot : key x ∉ (t.filter p).map key := fun hin =>
      hx (List.map_subset key (List.filter_subset_self t) hin)
    rw [insertNew_new hx, List.filter_append, List.filter_singleton]
    split
    · next hp => rw [insertNew_new hnot, hp]; rfl
    · next hp => rw [Bool.eq_false_iff.mpr hp]; exact List.append_nil _

theorem filter_foldl_insertNew (h : ∀ x r, key r = key x → p r = p x) : ∀ {xs t : List α},
    (xs.foldl (fun t x => insertNew key x t) t).filter p =
      (xs.filter p).foldl (fun t x => insertNew key x t) (t.filter p)
  | [], _ => rfl
  | x :: xs, t => by
      rw [List.foldl_cons, filter_foldl_insertNew h, filter_insertNew (h x), List.filter_cons]
      split <;> rfl

/-- Rows whose keys are all taken leave the table as it is. -/
theorem foldl_insertNew_old : ∀ {xs : List α}, (∀ x ∈ xs, key x ∈ t.map key) →
    xs.foldl (fun t x => insertNew key x t) t = t
  | [], _ => rfl
  | x :: xs, h => by
      rw [List.foldl_cons, insertNew_old (h x List.mem_cons_self)]
      exact foldl_insertNew_old fun y hy => h y (List.mem_cons_of_mem _ hy)

/-- Rows whose keys are new, and apart, go in as they are. -/
theorem foldl_insertNew_new : ∀ {xs t : List α}, (xs.map key).Nodup →
    (∀ x ∈ xs, key x ∉ t.map key) → xs.foldl (fun t x => insertNew key x t) t = t ++ xs
  | [], t, _, _ => (List.append_nil t).symm
  | x :: xs, t, hnd, h => by
      obtain ⟨hx, hnd⟩ := List.nodup_cons.mp hnd
      rw [List.foldl_cons, insertNew_new (h x List.mem_cons_self), foldl_insertNew_new hnd,
        List.append_assoc]
      · rfl
      · intro y hy hmem
        rw [List.map_append, List.mem_append] at hmem
        rcases hmem with hmem | hmem
        · exact h y (List.mem_cons_of_mem _ hy) hmem
        · exact hx (List.mem_singleton.mp hmem ▸ List.mem_map_of_mem hy)

/-- Inserting before or after a rewrite that keeps the keys is the same. -/
theorem foldl_insertNew_map {β : Type*} {key' : β → κ} {g : α → β} (hkey : ∀ x, key' (g x) = key x) :
    ∀ {xs t : List α}, (xs.map g).foldl (fun t y => insertNew key' y t) (t.map g) =
      (xs.foldl (fun t x => insertNew key x t) t).map g
  | [], _ => rfl
  | x :: xs, t => by
      have hstep : insertNew key' (g x) (t.map g) = (insertNew key x t).map g := by
        have hkeys : (t.map g).map key' = t.map key := by simp [hkey]
        unfold insertNew
        rw [hkeys, hkey]
        split <;> simp
      rw [List.map_cons, List.foldl_cons, List.foldl_cons, hstep]
      exact foldl_insertNew_map hkey

/-- The keys after a run of inserts are those there before and those put in. -/
theorem keys_foldl_insertNew {k : κ} : ∀ {xs t : List α},
    k ∈ (xs.foldl (fun t x => insertNew key x t) t).map key ↔ k ∈ t.map key ∨ k ∈ xs.map key
  | [], t => by simp
  | x :: xs, t => by
      rw [List.foldl_cons, keys_foldl_insertNew, mem_keys_insertNew, List.map_cons, List.mem_cons, or_assoc]

/-- A label that the key settles has one more value exactly when the row brings a new one. -/
theorem card_labels_insertNew {ι : Type*} [DecidableEq ι] {label : α → ι}
    (hlabel : ∀ r, key r = key x → label r = label x) :
    ((insertNew key x t).map label).toFinset.card =
      (t.map label).toFinset.card + if label x ∈ t.map label then 0 else 1 := by
  by_cases hx : key x ∈ t.map key
  · obtain ⟨r, hr, hk⟩ := List.mem_map.mp hx
    rw [insertNew_old hx, if_pos (List.mem_map.mpr ⟨r, hr, hlabel r hk⟩), Nat.add_zero]
  · have hadd : ((insertNew key x t).map label).toFinset = insert (label x) (t.map label).toFinset := by
      rw [insertNew_new hx, List.map_append, List.toFinset_append, Finset.union_comm]
      rfl
    rw [hadd]
    split
    · next hin => rw [Finset.insert_eq_of_mem (List.mem_toFinset.mpr hin), Nat.add_zero]
    · next hnot => rw [Finset.card_insert_of_notMem (mt List.mem_toFinset.mp hnot)]

theorem mem_of_foldl_insertNew : ∀ {xs t : List α},
    r ∈ xs.foldl (fun t x => insertNew key x t) t → r ∈ t ∨ r ∈ xs
  | [], _, h => Or.inl h
  | x :: xs, t, h => by
      rw [List.foldl_cons] at h
      rcases mem_of_foldl_insertNew h with hr | hr
      · rcases mem_insertNew.mp hr with hr | ⟨rfl, -⟩
        · exact Or.inl hr
        · exact Or.inr List.mem_cons_self
      · exact Or.inr (List.mem_cons_of_mem _ hr)

theorem nodup_foldl_insertNew : ∀ {xs t : List α}, (t.map key).Nodup →
    ((xs.foldl (fun t x => insertNew key x t) t).map key).Nodup
  | [], _, h => h
  | x :: xs, t, h => by
      rw [List.foldl_cons]
      exact nodup_foldl_insertNew (nodup_insertNew h)

theorem mem_of_inserts {xs : List α} (h : r ∈ xs.foldl (fun t x => insertNew key x t) []) : r ∈ xs := by
  rcases mem_of_foldl_insertNew h with hnil | hr
  · cases hnil
  · exact hr

/-- Where a key names one row, every row put in is there. -/
theorem mem_foldl_insertNew {xs : List α} (hkey : ∀ x ∈ xs, ∀ y ∈ xs, key x = key y → x = y) :
    r ∈ xs.foldl (fun t x => insertNew key x t) [] ↔ r ∈ xs := by
  refine ⟨mem_of_inserts, fun h => ?_⟩
  have hput : key r ∈ (xs.foldl (fun t x => insertNew key x t) []).map key :=
    keys_foldl_insertNew.mpr (Or.inr (List.mem_map_of_mem h))
  obtain ⟨y, hy, hyr⟩ := List.mem_map.mp hput
  rwa [← hkey y (mem_of_inserts hy) r h hyr]

section

variable {ι : Type*} [BEq ι] [LawfulBEq ι] {label : α → ι} {group : ι → List α} {R : α → α → Prop}

/-- Groups told apart by a label and put in one after the other stand in the order they were first put
    in, each in its own order. -/
theorem pairwise_insert_groups {ps : List ι} (hlabel : ∀ q ∈ ps, ∀ x ∈ group q, label x = q)
    (hnd : ∀ q ∈ ps, ((group q).map key).Nodup) (hR : ∀ q ∈ ps, (group q).Pairwise R)
    (hkey : ∀ x ∈ ps.flatMap group, ∀ y ∈ ps.flatMap group, key x = key y → x = y) :
    ((ps.flatMap group).foldl (fun t x => insertNew key x t) []).Pairwise fun a b =>
      ps.idxOf (label a) < ps.idxOf (label b) ∨ ps.idxOf (label a) = ps.idxOf (label b) ∧ R a b := by
  induction ps using List.reverseRecOn with
  | nil => exact List.Pairwise.nil
  | append_singleton ps p ih =>
      have hold : ∀ q ∈ ps, q ∈ ps ++ [p] := fun q hq => List.mem_append_left _ hq
      have hsub : ∀ x ∈ ps.flatMap group, x ∈ (ps ++ [p]).flatMap group := fun x hx => by
        rw [List.flatMap_append]
        exact List.mem_append_left _ hx
      have hnew : ∀ x ∈ group p, x ∈ (ps ++ [p]).flatMap group := fun x hx =>
        List.mem_flatMap.mpr ⟨p, by simp, hx⟩
      have ih := ih (fun q hq => hlabel q (hold q hq)) (fun q hq => hnd q (hold q hq))
        (fun q hq => hR q (hold q hq)) fun x hx y hy => hkey x (hsub x hx) y (hsub y hy)
      have hmerged : ∀ a ∈ (ps.flatMap group).foldl (fun t x => insertNew key x t) [], label a ∈ ps := by
        intro a ha
        obtain ⟨q, hq, haq⟩ := List.mem_flatMap.mp (mem_of_inserts ha)
        exact hlabel q (hold q hq) a haq ▸ hq
      have hsame : ∀ a ∈ (ps.flatMap group).foldl (fun t x => insertNew key x t) [],
          (ps ++ [p]).idxOf (label a) = ps.idxOf (label a) := fun a ha =>
        List.idxOf_append_of_mem (hmerged a ha)
      have ih' := ih.imp_of_mem fun {a b} ha hb h => by
        rw [← hsame a ha, ← hsame b hb] at h
        exact h
      rw [List.flatMap_append, List.foldl_append, List.flatMap_singleton]
      by_cases hp : p ∈ ps
      · have hthere : ∀ x ∈ group p, key x ∈
            ((ps.flatMap group).foldl (fun t x => insertNew key x t) []).map key := fun x hx =>
          keys_foldl_insertNew.mpr (Or.inr (List.mem_map_of_mem (List.mem_flatMap.mpr ⟨p, hp, hx⟩)))
        rwa [foldl_insertNew_old hthere]
      · have happ : ∀ x ∈ group p, (ps ++ [p]).idxOf (label x) = ps.length := fun x hx => by
          rw [hlabel p (by simp) x hx, List.idxOf_append_of_notMem hp]
          simp
        have hapart : ∀ x ∈ group p, key x ∉
            ((ps.flatMap group).foldl (fun t x => insertNew key x t) []).map key := by
          intro x hx hin
          obtain ⟨y, hy, hyx⟩ := List.mem_map.mp hin
          have heq := hkey y (hsub y (mem_of_inserts hy)) x (hnew x hx) hyx
          exact hp (hlabel p (by simp) x hx ▸ heq ▸ hmerged y hy)
        rw [foldl_insertNew_new (hnd p (by simp)) hapart]
        refine List.pairwise_append.mpr ⟨ih', ?_, fun a ha b hb => Or.inl ?_⟩
        · exact (hR p (by simp)).imp_of_mem fun {a b} ha hb h =>
            Or.inr ⟨(happ a ha).trans (happ b hb).symm, h⟩
        · rw [hsame a ha, happ b hb]
          exact List.idxOf_lt_length_iff.mpr (hmerged a ha)

end

/-- Two runs of inserts of rows with the same keys go alike. -/
theorem forall₂_foldl_insertNew {β : Type*} {key' : β → κ} {R : α → β → Prop} {xs : List α} {ys : List β}
    {u : List β} (hkey : ∀ a b, R a b → key a = key' b) (h : List.Forall₂ R xs ys)
    (htu : List.Forall₂ R t u) : List.Forall₂ R (xs.foldl (fun t x => insertNew key x t) t)
      (ys.foldl (fun u y => insertNew key' y u) u) := by
  induction h generalizing t u with
  | nil => exact htu
  | @cons x y xs ys hxy _ ih =>
      have hkeys : t.map key = u.map key' := by
        rw [← List.forall₂_eq_eq_eq, List.forall₂_map_left_iff, List.forall₂_map_right_iff]
        exact htu.imp hkey
      refine ih ?_
      beta_reduce
      by_cases hx : key x ∈ t.map key
      · rw [insertNew_old hx, insertNew_old (hkeys ▸ hkey x y hxy ▸ hx)]
        exact htu
      · rw [insertNew_new hx, insertNew_new fun h => hx (hkeys ▸ hkey x y hxy ▸ h)]
        exact List.rel_append htu (.cons hxy .nil)

theorem mem_updateWhere :
    r ∈ updateWhere p f t ↔ ∃ r₀ ∈ t, (if p r₀ then f r₀ else r₀) = r := by
  simp [updateWhere]

/-- An update that leaves a column alone leaves the whole column alone. -/
theorem map_updateWhere {β : Type*} {g : α → β} (hg : ∀ r, g (f r) = g r) :
    (updateWhere p f t).map g = t.map g := by
  simp only [updateWhere, List.map_map]
  refine List.map_congr_left fun r _ => ?_
  simp only [Function.comp]
  split
  · exact hg r
  · rfl

theorem updateWhere_false (h : ∀ r ∈ t, p r = false) : updateWhere p f t = t := by
  simp only [updateWhere]
  conv_rhs => rw [← List.map_id t]
  exact List.map_congr_left fun r hr => by simp [h r hr]

theorem updateWhere_id (h : ∀ r ∈ t, p r → f r = r) : updateWhere p f t = t := by
  simp only [updateWhere]
  conv_rhs => rw [← List.map_id t]
  exact List.map_congr_left fun r hr => by
    by_cases hp : p r
    · simp [hp, h r hr hp]
    · simp [hp]

omit [DecidableEq κ] in
variable (key) in
/-- The primary key tells rows apart. -/
theorem eq_of_key (h : (t.map key).Nodup) {a b : α} (ha : a ∈ t) (hb : b ∈ t)
    (hk : key a = key b) : a = b := List.inj_on_of_nodup_map h ha hb hk

/-- An update that a reading of the rows cannot tell leaves the reading alone. -/
theorem filterMap_updateWhere {β : Type*} {h : α → Option β} (hf : ∀ r ∈ t, p r → h (f r) = h r) :
    (updateWhere p f t).filterMap h = t.filterMap h := by
  rw [updateWhere, List.filterMap_map]
  refine List.filterMap_congr fun r hr => ?_
  by_cases hp : p r
  · simp [hp, hf r hr hp]
  · simp [hp]

/-- An update of one row that the reading passed over adds what the row now reads as. -/
theorem filterMap_updateWhere_perm {β : Type*} {h : α → Option β} {y : β} (hnd : t.Nodup)
    (hr : r ∈ t) (hp : ∀ q ∈ t, p q = true ↔ q = r) (hold : h r = none) (hnew : h (f r) = some y) :
    ((updateWhere p f t).filterMap h).Perm (t.filterMap h ++ [y]) := by
  obtain ⟨as, bs, rfl⟩ := List.append_of_mem hr
  rw [List.nodup_middle, List.nodup_cons, List.mem_append, not_or] at hnd
  obtain ⟨⟨has, hbs⟩, -⟩ := hnd
  have miss : ∀ qs : List α, r ∉ qs → (∀ q ∈ qs, q ∈ as ++ r :: bs) → updateWhere p f qs = qs := by
    intro qs hqs hsub
    refine updateWhere_false fun q hq => Bool.eq_false_iff.mpr fun h => hqs ?_
    exact (hp q (hsub q hq)).mp h ▸ hq
  have hsplit : updateWhere p f (as ++ r :: bs) = as ++ f r :: bs := by
    have ha := miss as has fun q hq => List.mem_append_left _ hq
    have hb := miss bs hbs fun q hq => List.mem_append_right _ (List.mem_cons_of_mem _ hq)
    simp only [updateWhere] at ha hb ⊢
    rw [List.map_append, List.map_cons, ha, hb, if_pos ((hp r hr).mpr rfl)]
  rw [hsplit]
  simp only [List.filterMap_append, List.filterMap_cons, hold, hnew]
  exact List.perm_middle.trans (List.perm_append_singleton _ _).symm

variable (key) in
/-- `MERGE (r {key}) SET ...`: the row under the key becomes `x`; where there is none, `x` is added. -/
def merge (x : α) (t : List α) : List α :=
  updateWhere (fun r => decide (key r = key x)) (fun _ => x) (insertNew key x t)

/-- With no row under its key, `x` is added. -/
theorem merge_new (h : key x ∉ t.map key) : merge key x t = t ++ [x] := by
  have hold : updateWhere (fun r => decide (key r = key x)) (fun _ => x) t = t :=
    updateWhere_false fun r hr => decide_eq_false fun hk => h (hk ▸ List.mem_map_of_mem hr)
  rw [merge, insertNew_new h]
  simp only [updateWhere, List.map_append] at hold ⊢
  rw [hold]
  simp

theorem mem_merge : r ∈ merge key x t ↔ r = x ∨ (r ∈ t ∧ key r ≠ key x) := by
  simp only [merge, mem_updateWhere, decide_eq_true_eq]
  constructor
  · rintro ⟨q, hq, rfl⟩
    split
    · exact Or.inl rfl
    · next hne =>
        rcases mem_insertNew.mp hq with hq | ⟨rfl, -⟩
        · exact Or.inr ⟨hq, hne⟩
        · exact absurd rfl hne
  · rintro (rfl | ⟨hr, hne⟩)
    · obtain ⟨q, hq, hk⟩ := List.mem_map.mp (key_mem_insertNew : key r ∈ (insertNew key r t).map key)
      exact ⟨q, hq, if_pos hk⟩
    · exact ⟨r, mem_insertNew_of_mem hr, if_neg hne⟩

theorem nodup_merge (h : (t.map key).Nodup) : ((merge key x t).map key).Nodup := by
  have hkeys : (merge key x t).map key = (insertNew key x t).map key := by
    rw [merge, updateWhere, List.map_map]
    refine List.map_congr_left fun r _ => ?_
    rw [Function.comp]
    split
    · next hk => exact (of_decide_eq_true hk).symm
    · rfl
  rw [hkeys]
  exact nodup_insertNew h

/-- Read through a view that tells the same rows apart, a merge is a merge. -/
theorem map_merge {β ι : Type*} [DecidableEq ι] {view : α → β} {name : β → ι}
    (h : ∀ r ∈ t, key r = key x ↔ name (view r) = name (view x)) :
    (merge key x t).map view = merge name (view x) (t.map view) := by
  have hmap : ∀ l : List α, (∀ r ∈ l, key r = key x ↔ name (view r) = name (view x)) →
      (updateWhere (fun r => decide (key r = key x)) (fun _ => x) l).map view =
        updateWhere (fun r => decide (name r = name (view x))) (fun _ => view x) (l.map view) := by
    intro l hl
    rw [updateWhere, updateWhere, List.map_map, List.map_map]
    refine List.map_congr_left fun r hr => ?_
    by_cases hk : key r = key x
    · simp [hk, (hl r hr).mp hk]
    · simp [hk, mt (hl r hr).mpr hk]
  have hmem : name (view x) ∈ (t.map view).map name ↔ key x ∈ t.map key := by
    simp only [List.map_map, List.mem_map, Function.comp]
    exact ⟨fun ⟨r, hr, hk⟩ => ⟨r, hr, (h r hr).mpr hk⟩, fun ⟨r, hr, hk⟩ => ⟨r, hr, (h r hr).mp hk⟩⟩
  by_cases hx : key x ∈ t.map key
  · rw [merge, merge, insertNew_old hx, insertNew_old (hmem.mpr hx), hmap t h]
  · rw [merge_new hx, merge_new (mt hmem.mp hx), List.map_append, List.map_singleton]

/-- A merge of a row among its own kind shows in that kind, and in no other. -/
theorem filter_merge (h : ∀ r ∈ t, key r = key x → p r = p x) :
    (merge key x t).filter p = if p x then merge key x (t.filter p) else t.filter p := by
  have hmap : ∀ l : List α, (∀ r ∈ l, key r = key x → p r = p x) →
      (updateWhere (fun r => decide (key r = key x)) (fun _ => x) l).filter p =
        updateWhere (fun r => decide (key r = key x)) (fun _ => x) (l.filter p) := by
    intro l hl
    rw [updateWhere, updateWhere, List.filter_map]
    refine congrArg (List.map _) (List.filter_congr fun r hr => ?_)
    by_cases hk : key r = key x
    · simp [hk, hl r hr hk]
    · simp [hk]
  by_cases hx : key x ∈ t.map key
  · rw [merge, insertNew_old hx, hmap t h]
    obtain ⟨q, hq, hk⟩ := List.mem_map.mp hx
    split
    · next hp =>
        have hin : key x ∈ (t.filter p).map key :=
          List.mem_map.mpr ⟨q, List.mem_filter.mpr ⟨hq, by rw [h q hq hk, hp]⟩, hk⟩
        rw [merge, insertNew_old hin]
    · next hp =>
        refine updateWhere_false fun r hr => decide_eq_false fun hk => hp ?_
        obtain ⟨hr, hpr⟩ := List.mem_filter.mp hr
        rw [← h r hr hk, hpr]
  · have hnot : key x ∉ (t.filter p).map key := fun hin =>
      hx (List.map_subset key (List.filter_subset_self t) hin)
    have hall : ∀ r ∈ t ++ [x], key r = key x → p r = p x := by
      intro r hr hk
      rcases List.mem_append.mp hr with hr | hr
      · exact h r hr hk
      · rw [List.mem_singleton.mp hr]
    rw [merge, insertNew_new hx, hmap _ hall, List.filter_append]
    split
    · next hp => rw [merge, insertNew_new hnot, List.filter_singleton, hp]; rfl
    · next hp =>
        rw [List.filter_singleton, Bool.eq_false_iff.mpr hp]
        refine (congrArg _ (List.append_nil _)).trans (updateWhere_false fun r hr => decide_eq_false fun hk => ?_)
        exact hnot (List.mem_map.mpr ⟨r, hr, hk⟩)

end Lib.Table
