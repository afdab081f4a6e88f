import Mathlib.Data.List.Perm.Basic
import Mathlib.Data.List.Sort
import Mathlib.Data.String.Basic
import Mathlib.Tactic.Common

/-! JSON values over any keys and scalars: reordering the entries of objects, and printing.

    `canon` is the form `sort_keys` prints. CORRECT: any reordering has the same `canon`
    (`canon_sortKeys`), and a printed value determines the value wherever its scalars' and keys' texts
    do (`print_inj`). -/

namespace Lib.Json

/-- A JSON value: a scalar, an array or an object. -/
inductive Tree (K S : Type) where
  | leaf (s : S)
  | arr (xs : List (Tree K S))
  | obj (kvs : List (K × Tree K S))

variable {K S T U : Type}

/-- Induction with the hypothesis for every member. -/
theorem Tree.induction {P : Tree K S → Prop} (leaf : ∀ s, P (.leaf s))
    (arr : ∀ xs, (∀ x ∈ xs, P x) → P (.arr xs))
    (obj : ∀ kvs, (∀ kv ∈ kvs, P kv.2) → P (.obj kvs)) (t : Tree K S) : P t :=
  Tree.rec (motive_1 := P) (motive_2 := fun xs => ∀ x ∈ xs, P x)
    (motive_3 := fun kvs => ∀ kv ∈ kvs, P kv.2) (motive_4 := fun kv => P kv.2)
    leaf arr obj (by simp) (fun _ _ hx hxs => List.forall_mem_cons.mpr ⟨hx, hxs⟩) (by simp)
    (fun _ _ hx hxs => List.forall_mem_cons.mpr ⟨hx, hxs⟩) (fun _ _ h => h) t

/-! ### Members, scalars, reordering -/

mutual
/-- Rewrite every scalar. -/
def Tree.map (f : S → T) : Tree K S → Tree K T
  | .leaf s => .leaf (f s)
  | .arr xs => .arr (mapArr f xs)
  | .obj kvs => .obj (mapObj f kvs)

def mapArr (f : S → T) : List (Tree K S) → List (Tree K T)
  | [] => []
  | x :: xs => x.map f :: mapArr f xs

def mapObj (f : S → T) : List (K × Tree K S) → List (K × Tree K T)
  | [] => []
  | (k, v) :: kvs => (k, v.map f) :: mapObj f kvs
end

mutual
/-- The scalars, in order. -/
def Tree.scalars : Tree K S → List S
  | .leaf s => [s]
  | .arr xs => scalarsArr xs
  | .obj kvs => scalarsObj kvs

def scalarsArr : List (Tree K S) → List S
  | [] => []
  | x :: xs => x.scalars ++ scalarsArr xs

def scalarsObj : List (K × Tree K S) → List S
  | [] => []
  | (_, v) :: kvs => v.scalars ++ scalarsObj kvs
end

mutual
/-- The keys of the objects, in order. -/
def Tree.keys : Tree K S → List K
  | .leaf _ => []
  | .arr xs => keysArr xs
  | .obj kvs => keysObj kvs

def keysArr : List (Tree K S) → List K
  | [] => []
  | x :: xs => x.keys ++ keysArr xs

def keysObj : List (K × Tree K S) → List K
  | [] => []
  | (k, v) :: kvs => k :: (v.keys ++ keysObj kvs)
end

mutual
/-- No object has two entries under one key. -/
def Tree.Distinct : Tree K S → Prop
  | .leaf _ => True
  | .arr xs => DistinctArr xs
  | .obj kvs => (kvs.map Prod.fst).Nodup ∧ DistinctObj kvs

def DistinctArr : List (Tree K S) → Prop
  | [] => True
  | x :: xs => x.Distinct ∧ DistinctArr xs

def DistinctObj : List (K × Tree K S) → Prop
  | [] => True
  | (_, v) :: kvs => v.Distinct ∧ DistinctObj kvs
end

/-- Put entries in the order of their keys. -/
def sortEntries (le : K → K → Prop) [DecidableRel le] (kvs : List (K × T)) : List (K × T) :=
  kvs.insertionSort fun a b => le a.1 b.1

mutual
/-- Put the entries of every object in the order of their keys. -/
def Tree.sortKeys (le : K → K → Prop) [DecidableRel le] : Tree K S → Tree K S
  | .leaf s => .leaf s
  | .arr xs => .arr (sortArr le xs)
  | .obj kvs => .obj (sortEntries le (sortObj le kvs))

def sortArr (le : K → K → Prop) [DecidableRel le] : List (Tree K S) → List (Tree K S)
  | [] => []
  | x :: xs => x.sortKeys le :: sortArr le xs

def sortObj (le : K → K → Prop) [DecidableRel le] : List (K × Tree K S) → List (K × Tree K S)
  | [] => []
  | (k, v) :: kvs => (k, v.sortKeys le) :: sortObj le kvs
end

@[simp] theorem map_leaf (f : S → T) (s : S) : (Tree.leaf s : Tree K S).map f = .leaf (f s) := rfl

@[simp] theorem map_arr (f : S → T) (xs : List (Tree K S)) :
    (Tree.arr xs).map f = .arr (xs.map (Tree.map f)) := by
  have h : ∀ ys : List (Tree K S), mapArr f ys = ys.map (Tree.map f) := by
    intro ys
    induction ys with
    | nil => rfl
    | cons y ys ih => rw [mapArr, ih, List.map_cons]
  rw [Tree.map, h]

@[simp] theorem map_obj (f : S → T) (kvs : List (K × Tree K S)) :
    (Tree.obj kvs).map f = .obj (kvs.map fun kv => (kv.1, kv.2.map f)) := by
  have h : ∀ ys, mapObj f ys = ys.map fun kv : K × Tree K S => (kv.1, kv.2.map f) := by
    intro ys
    induction ys with
    | nil => rfl
    | cons y ys ih => rw [mapObj, ih, List.map_cons]
  rw [Tree.map, h]

@[simp] theorem scalars_leaf (s : S) : (Tree.leaf s : Tree K S).scalars = [s] := rfl

@[simp] theorem scalars_arr (xs : List (Tree K S)) :
    (Tree.arr xs).scalars = xs.flatMap Tree.scalars := by
  have h : ∀ ys : List (Tree K S), scalarsArr ys = ys.flatMap Tree.scalars := by
    intro ys
    induction ys with
    | nil => rfl
    | cons y ys ih => rw [scalarsArr, ih, List.flatMap_cons]
  rw [Tree.scalars, h]

@[simp] theorem scalars_obj (kvs : List (K × Tree K S)) :
    (Tree.obj kvs).scalars = kvs.flatMap fun kv => kv.2.scalars := by
  have h : ∀ ys : List (K × Tree K S), scalarsObj ys = ys.flatMap fun kv => kv.2.scalars := by
    intro ys
    induction ys with
    | nil => rfl
    | cons y ys ih => rw [scalarsObj, ih, List.flatMap_cons]
  rw [Tree.scalars, h]

@[simp] theorem distinct_leaf (s : S) : (Tree.leaf s : Tree K S).Distinct := trivial

@[simp] theorem distinct_arr {xs : List (Tree K S)} :
    (Tree.arr xs).Distinct ↔ ∀ x ∈ xs, x.Distinct := by
  have h : ∀ ys : List (Tree K S), DistinctArr ys ↔ ∀ y ∈ ys, y.Distinct := by
    intro ys
    induction ys with
    | nil => simp [DistinctArr]
    | cons y ys ih => rw [DistinctArr, ih, List.forall_mem_cons]
  rw [Tree.Distinct, h]

@[simp] theorem distinct_obj {kvs : List (K × Tree K S)} :
    (Tree.obj kvs).Distinct ↔ (kvs.map Prod.fst).Nodup ∧ ∀ kv ∈ kvs, kv.2.Distinct := by
  have h : ∀ ys : List (K × Tree K S), DistinctObj ys ↔ ∀ kv ∈ ys, kv.2.Distinct := by
    intro ys
    induction ys with
    | nil => simp [DistinctObj]
    | cons y ys ih => rw [DistinctObj, ih, List.forall_mem_cons]
  rw [Tree.Distinct, h]

theorem scalars_map (f : S → T) (t : Tree K S) : (t.map f).scalars = t.scalars.map f := by
  induction t using Tree.induction with
  | leaf s => rfl
  | arr xs ih =>
      rw [map_arr, scalars_arr, scalars_arr, List.flatMap_map, List.map_flatMap]
      exact List.flatMap_congr ih
  | obj kvs ih =>
      rw [map_obj, scalars_obj, scalars_obj, List.flatMap_map, List.map_flatMap]
      exact List.flatMap_congr ih

/-- Rewriting scalars keeps the keys. -/
theorem distinct_map {f : S → T} {t : Tree K S} (ht : t.Distinct) : (t.map f).Distinct := by
  induction t using Tree.induction with
  | leaf s => trivial
  | arr xs ih =>
      rw [distinct_arr] at ht
      simpa using fun x hx => ih x hx (ht x hx)
  | obj kvs ih =>
      obtain ⟨hnd, hvs⟩ := distinct_obj.mp ht
      rw [map_obj, distinct_obj, List.map_map]
      refine ⟨hnd, fun kv hkv => ?_⟩
      obtain ⟨kv', hkv', rfl⟩ := List.mem_map.mp hkv
      exact ih kv' hkv' (hvs kv' hkv')

section Reorder

variable (le : K → K → Prop) [DecidableRel le]

@[simp] theorem sortKeys_leaf (s : S) : (Tree.leaf s : Tree K S).sortKeys le = .leaf s := rfl

@[simp] theorem sortKeys_arr (xs : List (Tree K S)) :
    (Tree.arr xs).sortKeys le = .arr (xs.map (Tree.sortKeys le)) := by
  have h : ∀ ys : List (Tree K S), sortArr le ys = ys.map (Tree.sortKeys le) := by
    intro ys
    induction ys with
    | nil => rfl
    | cons y ys ih => rw [sortArr, ih, List.map_cons]
  rw [Tree.sortKeys, h]

@[simp] theorem sortKeys_obj (kvs : List (K × Tree K S)) :
    (Tree.obj kvs).sortKeys le =
      .obj (sortEntries le (kvs.map fun kv => (kv.1, kv.2.sortKeys le))) := by
  have h : ∀ ys : List (K × Tree K S), sortObj le ys = ys.map fun kv => (kv.1, kv.2.sortKeys le) := by
    intro ys
    induction ys with
    | nil => rfl
    | cons y ys ih => rw [sortObj, ih, List.map_cons]
  rw [Tree.sortKeys, h]

theorem sortEntries_perm (kvs : List (K × T)) : (sortEntries le kvs).Perm kvs :=
  List.perm_insertionSort _ _

theorem sortEntries_map (f : T → U) (kvs : List (K × T)) :
    sortEntries le (kvs.map fun kv => (kv.1, f kv.2)) =
      (sortEntries le kvs).map fun kv => (kv.1, f kv.2) :=
  (List.map_insertionSort _ _ (fun kv : K × T => (kv.1, f kv.2)) kvs
    fun _ _ _ _ => Iff.rfl).symm

/-- Rewriting scalars and reordering entries commute. -/
theorem map_sortKeys (f : S → T) (t : Tree K S) :
    (t.sortKeys le).map f = (t.map f).sortKeys le := by
  induction t using Tree.induction with
  | leaf s => rfl
  | arr xs ih =>
      simp only [sortKeys_arr, map_arr, List.map_map, Tree.arr.injEq]
      exact List.map_congr_left fun x hx => ih x hx
  | obj kvs ih =>
      simp only [sortKeys_obj, map_obj, List.map_map, Tree.obj.injEq]
      rw [← sortEntries_map, List.map_map]
      congr 1
      refine List.map_congr_left fun kv hkv => ?_
      simp [ih kv hkv]

/-- Reordering keeps the scalars. -/
theorem scalars_sortKeys (t : Tree K S) : (t.sortKeys le).scalars.Perm t.scalars := by
  induction t using Tree.induction with
  | leaf s => rfl
  | arr xs ih =>
      simp only [sortKeys_arr, scalars_arr, List.flatMap_map]
      exact List.Perm.flatMap_left _ ih
  | obj kvs ih =>
      simp only [sortKeys_obj, scalars_obj]
      refine ((sortEntries_perm le _).flatMap_right _).trans ?_
      rw [List.flatMap_map]
      exact List.Perm.flatMap_left _ ih

theorem distinct_sortKeys {t : Tree K S} (ht : t.Distinct) : (t.sortKeys le).Distinct := by
  induction t using Tree.induction with
  | leaf s => trivial
  | arr xs ih =>
      rw [distinct_arr] at ht
      simpa using fun x hx => ih x hx (ht x hx)
  | obj kvs ih =>
      obtain ⟨hnd, hvs⟩ := distinct_obj.mp ht
      rw [sortKeys_obj, distinct_obj]
      have hperm := sortEntries_perm le (kvs.map fun kv => (kv.1, kv.2.sortKeys le))
      refine ⟨(hperm.map Prod.fst).nodup_iff.mpr (by rw [List.map_map]; exact hnd), ?_⟩
      intro kv hkv
      obtain ⟨kv', hkv', rfl⟩ := List.mem_map.mp (hperm.mem_iff.mp hkv)
      exact ih kv' hkv' (hvs kv' hkv')

end Reorder

theorem map_comp (f : S → T) (g : T → U) (t : Tree K S) : (t.map f).map g = t.map (g ∘ f) := by
  induction t using Tree.induction with
  | leaf s => rfl
  | arr xs ih =>
      simp only [map_arr, List.map_map, Tree.arr.injEq]
      exact List.map_congr_left ih
  | obj kvs ih =>
      simp only [map_obj, List.map_map, Tree.obj.injEq]
      exact List.map_congr_left fun kv hkv => Prod.ext rfl (ih kv hkv)

/-- Two rewritings of a value agree where they agree on its scalars. -/
theorem map_eq_map {f g : S → T} (t : Tree K S) : t.map f = t.map g ↔ ∀ s ∈ t.scalars, f s = g s := by
  induction t using Tree.induction with
  | leaf s => simp
  | arr xs ih =>
      simp only [map_arr, Tree.arr.injEq, scalars_arr, List.mem_flatMap, forall_exists_index, and_imp]
      rw [List.map_inj_left]
      constructor
      · intro h s x hx hs
        exact (ih x hx).mp (h x hx) s hs
      · intro h x hx
        exact (ih x hx).mpr fun s hs => h s x hx hs
  | obj kvs ih =>
      simp only [map_obj, Tree.obj.injEq, scalars_obj, List.mem_flatMap, forall_exists_index, and_imp]
      rw [List.map_inj_left]
      constructor
      · intro h s kv hkv hs
        exact (ih kv hkv).mp (congrArg Prod.snd (h kv hkv)) s hs
      · intro h kv hkv
        exact Prod.ext rfl ((ih kv hkv).mpr fun s hs => h s kv hkv hs)

theorem map_id (t : Tree K S) : t.map id = t := by
  induction t using Tree.induction with
  | leaf s => rfl
  | arr xs ih =>
      rw [map_arr, List.map_congr_left ih, List.map_id']
  | obj kvs ih =>
      have hkeep : ∀ kv ∈ kvs, (kv.1, kv.2.map id) = kv := fun kv hkv => by rw [ih kv hkv]
      rw [map_obj, List.map_congr_left hkeep, List.map_id']

/-- A value keeps itself exactly when each of its scalars does. -/
theorem map_eq_self {f : S → S} (t : Tree K S) : t.map f = t ↔ ∀ s ∈ t.scalars, f s = s := by
  have h := map_eq_map (f := f) (g := id) t
  rwa [map_id] at h

/-! ### The canonical order -/

section Canon

variable [LinearOrder K]

/-- The form in which every object lists its entries by key. -/
def Tree.canon (t : Tree K S) : Tree K S := t.sortKeys (· ≤ ·)

/-- Lists of entries under distinct keys that are permutations sort alike. -/
theorem sortEntries_congr {kvs kvs' : List (K × T)} (h : kvs.Perm kvs')
    (hnd : (kvs.map Prod.fst).Nodup) : sortEntries (· ≤ ·) kvs = sortEntries (· ≤ ·) kvs' := by
  have hperm : (sortEntries (· ≤ ·) kvs).Perm (sortEntries (· ≤ ·) kvs') :=
    (sortEntries_perm _ kvs).trans (h.trans (sortEntries_perm _ kvs').symm)
  have htotal : Std.Total fun a b : K × T => a.1 ≤ b.1 := ⟨fun a b => le_total a.1 b.1⟩
  have htrans : IsTrans (K × T) fun a b => a.1 ≤ b.1 := ⟨fun _ _ _ => le_trans⟩
  refine hperm.eq_of_pairwise (fun a b ha hb hab hba => ?_)
    (List.pairwise_insertionSort _ kvs) (List.pairwise_insertionSort _ kvs')
  have hmem : ∀ {x}, x ∈ sortEntries (· ≤ ·) kvs → x ∈ kvs := (sortEntries_perm _ kvs).mem_iff.mp
  exact List.inj_on_of_nodup_map hnd (hmem ha) (hmem (hperm.mem_iff.mpr hb)) (le_antisymm hab hba)

/-- CORRECT: the canonical form does not depend on the order in which a store kept the entries. -/
theorem canon_sortKeys {le : K → K → Prop} [DecidableRel le] {t : Tree K S} (ht : t.Distinct) :
    (t.sortKeys le).canon = t.canon := by
  unfold Tree.canon
  induction t using Tree.induction with
  | leaf s => rfl
  | arr xs ih =>
      simp only [sortKeys_arr, List.map_map, Tree.arr.injEq]
      exact List.map_congr_left fun x hx => ih x hx (distinct_arr.mp ht x hx)
  | obj kvs ih =>
      obtain ⟨hnd, hvs⟩ := distinct_obj.mp ht
      simp only [sortKeys_obj, Tree.obj.injEq]
      have hinner : (kvs.map fun kv => (kv.1, (kv.2.sortKeys le).sortKeys (· ≤ ·))) =
          kvs.map fun kv => (kv.1, kv.2.sortKeys (· ≤ ·)) :=
        List.map_congr_left fun kv hkv => Prod.ext rfl (ih kv hkv (hvs kv hkv))
      rw [← sortEntries_map, ← hinner]
      refine (sortEntries_congr ?_ ?_).symm
      · rw [List.map_map]
        exact (sortEntries_perm le _).symm
      · rw [List.map_map]
        exact hnd

end Canon

/-! ### Printing -/

/-- The texts with `","` between them. -/
def join : List (List Char) → List Char
  | [] => []
  | x :: xs => x ++ xs.flatMap fun y => ',' :: y

mutual
/-- The text of a value, with no whitespace, its entries in the order they stand. -/
def Tree.print (text : S → List Char) (key : K → List Char) : Tree K S → List Char
  | .leaf s => text s
  | .arr xs => '[' :: (join (printArr text key xs) ++ [']'])
  | .obj kvs => '{' :: (join (printObj text key kvs) ++ ['}'])

def printArr (text : S → List Char) (key : K → List Char) : List (Tree K S) → List (List Char)
  | [] => []
  | x :: xs => x.print text key :: printArr text key xs

def printObj (text : S → List Char) (key : K → List Char) :
    List (K × Tree K S) → List (List Char)
  | [] => []
  | (k, v) :: kvs => (key k ++ ':' :: v.print text key) :: printObj text key kvs
end

section Print

variable {text : S → List Char} {key : K → List Char}

theorem printArr_eq (xs : List (Tree K S)) :
    printArr text key xs = xs.map (Tree.print text key) := by
  induction xs with
  | nil => rfl
  | cons x xs ih => rw [printArr, ih, List.map_cons]

theorem printObj_eq (kvs : List (K × Tree K S)) :
    printObj text key kvs = kvs.map fun kv => key kv.1 ++ ':' :: kv.2.print text key := by
  induction kvs with
  | nil => rfl
  | cons kv kvs ih => rw [printObj, ih, List.map_cons]

/-- What may follow a value inside a larger one. -/
def Stops (r : List Char) : Prop := ∀ c ∈ r.head?, c ∈ [',', ']', '}']

/-- The text of `x` is told from the text of any other `y` with `Q` by what follows it. -/
def Told {α : Type} (Q : α → Prop) (p : α → List Char) (x : α) : Prop :=
  ∀ y r r', Q y → p x ++ r = p y ++ r' → Stops r → Stops r' → x = y ∧ r = r'

/-- A comma, or the closing bracket, follows a member. -/
theorem stops_rest {α : Type} {p : α → List Char} {close : Char} (hclose : close ∈ [']', '}'])
    (xs : List α) (r : List Char) : Stops ((xs.flatMap fun x => ',' :: p x) ++ close :: r) := by
  cases xs with
  | nil =>
      have hmem : close ∈ [',', ']', '}'] := List.mem_cons_of_mem _ hclose
      simpa [Stops] using hmem
  | cons x xs => simp [Stops]

section Members

variable {α : Type} {Q : α → Prop} {p : α → List Char} {close : Char}

theorem rest_inj (hclose : close ∈ [']', '}']) :
    ∀ {xs ys : List α} {r r' : List Char}, (∀ x ∈ xs, Told Q p x) → (∀ y ∈ ys, Q y) →
      (xs.flatMap fun x => ',' :: p x) ++ close :: r =
        (ys.flatMap fun y => ',' :: p y) ++ close :: r' → xs = ys ∧ r = r'
  | [], [], r, r', _, _, h => ⟨rfl, List.tail_eq_of_cons_eq h⟩
  | [], y :: ys, r, r', _, _, h => by
      rw [List.head_eq_of_cons_eq h] at hclose
      simp at hclose
  | x :: xs, [], r, r', _, _, h => by
      rw [← List.head_eq_of_cons_eq h] at hclose
      simp at hclose
  | x :: xs, y :: ys, r, r', htold, hys, h => by
      simp only [List.flatMap_cons, List.cons_append, List.cons.injEq, true_and,
        List.append_assoc] at h
      obtain ⟨rfl, hrest⟩ := htold x List.mem_cons_self y _ _ (hys y List.mem_cons_self) h
        (stops_rest hclose xs r) (stops_rest hclose ys r')
      obtain ⟨rfl, rfl⟩ := rest_inj hclose (fun z hz => htold z (List.mem_cons_of_mem _ hz))
        (fun z hz => hys z (List.mem_cons_of_mem _ hz)) hrest
      exact ⟨rfl, rfl⟩

/-- Members between brackets are told apart when each is and none starts with the closing one. -/
theorem join_inj (hclose : close ∈ [']', '}']) {xs ys : List α} {r r' : List Char}
    (htold : ∀ x ∈ xs, Told Q p x) (hys : ∀ y ∈ ys, Q y)
    (hhead : ∀ x, x ∈ xs ∨ x ∈ ys → ∃ c cs, p x = c :: cs ∧ c ≠ close)
    (h : join (xs.map p) ++ close :: r = join (ys.map p) ++ close :: r') : xs = ys ∧ r = r' := by
  cases xs with
  | nil =>
      cases ys with
      | nil => exact ⟨rfl, List.tail_eq_of_cons_eq h⟩
      | cons y ys =>
          obtain ⟨c, cs, hp, hc⟩ := hhead y (Or.inr List.mem_cons_self)
          simp only [List.map_cons, join, hp, List.cons_append] at h
          exact absurd (List.head_eq_of_cons_eq h).symm hc
  | cons x xs =>
      cases ys with
      | nil =>
          obtain ⟨c, cs, hp, hc⟩ := hhead x (Or.inl List.mem_cons_self)
          simp only [List.map_cons, join, hp, List.cons_append] at h
          exact absurd (List.head_eq_of_cons_eq h) hc
      | cons y ys =>
          simp only [List.map_cons, join, List.append_assoc, List.flatMap_map] at h
          obtain ⟨rfl, hrest⟩ := htold x List.mem_cons_self y _ _ (hys y List.mem_cons_self) h
            (stops_rest hclose xs r) (stops_rest hclose ys r')
          obtain ⟨rfl, rfl⟩ := rest_inj hclose (fun z hz => htold z (List.mem_cons_of_mem _ hz))
            (fun z hz => hys z (List.mem_cons_of_mem _ hz)) hrest
          exact ⟨rfl, rfl⟩

end Members

/-- The texts of `good` scalars and of keys are told apart, and start as no bracket does. -/
structure Legible (good : S → Prop) (text : S → List Char) (key : K → List Char) : Prop where
  scalar_told : ∀ s, good s → Told good text s
  scalar_head : ∀ s, good s → ∃ c cs, text s = c :: cs ∧ c ∉ ['[', ']', '{']
  key_told : ∀ k k' r r', key k ++ r = key k' ++ r' → k = k' ∧ r = r'
  key_head : ∀ k, ∃ c cs, key k = c :: cs ∧ c ≠ '}'

/-- Every scalar is good. -/
def Tree.All (good : S → Prop) (t : Tree K S) : Prop := ∀ s ∈ t.scalars, good s

variable {good : S → Prop}

theorem all_arr {xs : List (Tree K S)} : (Tree.arr xs).All good ↔ ∀ x ∈ xs, x.All good := by
  simp only [Tree.All, scalars_arr, List.mem_flatMap, forall_exists_index, and_imp]
  exact ⟨fun h x hx s hs => h s x hx hs, fun h s x hx hs => h x hx s hs⟩

theorem all_obj {kvs : List (K × Tree K S)} :
    (Tree.obj kvs).All good ↔ ∀ kv ∈ kvs, kv.2.All good := by
  simp only [Tree.All, scalars_obj, List.mem_flatMap, forall_exists_index, and_imp]
  exact ⟨fun h x hx s hs => h s x hx hs, fun h s x hx hs => h x hx s hs⟩

theorem print_head (h : Legible good text key) {t : Tree K S} (ht : t.All good) :
    ∃ c cs, t.print text key = c :: cs ∧ c ≠ ']' := by
  cases t with
  | leaf s =>
      obtain ⟨c, cs, hs, hc⟩ := h.scalar_head s (ht s List.mem_cons_self)
      refine ⟨c, cs, hs, ?_⟩
      rintro rfl
      simp at hc
  | arr xs => exact ⟨'[', _, rfl, by decide⟩
  | obj kvs => exact ⟨'{', _, rfl, by decide⟩

/-- CORRECT: a printed value determines the value, and where it ends. -/
theorem print_inj (h : Legible good text key) (t : Tree K S) (ht : t.All good) :
    Told (Tree.All good) (Tree.print text key) t := by
  -- a scalar starts as no bracket does, so the first character names the kind of the value
  have hscalar : ∀ s c cs (r : List Char), good s → c ∈ ['[', '{'] → text s ++ r ≠ c :: cs := by
    intro s c cs r hgood hc heq
    obtain ⟨d, ds, hs, hd⟩ := h.scalar_head s hgood
    rw [hs, List.cons_append] at heq
    obtain rfl := List.head_eq_of_cons_eq heq
    revert hc hd
    simp only [List.mem_cons, List.not_mem_nil, or_false]
    tauto
  have hleaf : ∀ {s : S}, (Tree.leaf s : Tree K S).All good → good s := fun hs =>
    hs _ List.mem_cons_self
  induction t using Tree.induction with
  | leaf s =>
      intro t' r r' ht' heq hr hr'
      cases t' with
      | leaf s' =>
          obtain ⟨rfl, rfl⟩ := h.scalar_told s (hleaf ht) s' r r' (hleaf ht') heq hr hr'
          exact ⟨rfl, rfl⟩
      | arr ys => exact absurd heq (hscalar s _ _ _ (hleaf ht) (by decide))
      | obj kvs => exact absurd heq (hscalar s _ _ _ (hleaf ht) (by decide))
  | arr xs ih =>
      intro t' r r' ht' heq hr hr'
      cases t' with
      | leaf s' => exact absurd heq.symm (hscalar s' _ _ _ (hleaf ht') (by decide))
      | arr ys =>
          rw [all_arr] at ht ht'
          simp only [Tree.print, printArr_eq, List.cons_append, List.cons.injEq, true_and,
            List.append_assoc, List.nil_append] at heq
          obtain ⟨rfl, rfl⟩ := join_inj (by decide) (fun x hx => ih x hx (ht x hx)) ht'
            (fun x hx => print_head h (hx.elim (ht x) (ht' x))) heq
          exact ⟨rfl, rfl⟩
      | obj kvs => exact absurd (List.head_eq_of_cons_eq heq) (by decide)
  | obj kvs ih =>
      intro t' r r' ht' heq hr hr'
      cases t' with
      | leaf s' => exact absurd heq.symm (hscalar s' _ _ _ (hleaf ht') (by decide))
      | arr ys => exact absurd (List.head_eq_of_cons_eq heq) (by decide)
      | obj kvs' =>
          rw [all_obj] at ht ht'
          simp only [Tree.print, printObj_eq, List.cons_append, List.cons.injEq, true_and,
            List.append_assoc, List.nil_append] at heq
          have hhead : ∀ kv : K × Tree K S,
              ∃ c cs, key kv.1 ++ ':' :: kv.2.print text key = c :: cs ∧ c ≠ '}' := by
            intro kv
            obtain ⟨c, cs, hk, hc⟩ := h.key_head kv.1
            exact ⟨c, _, by rw [hk, List.cons_append], hc⟩
          have htold : ∀ kv ∈ kvs, Told (fun kv : K × Tree K S => kv.2.All good)
              (fun kv : K × Tree K S => key kv.1 ++ ':' :: kv.2.print text key) kv := by
            rintro ⟨k, v⟩ hkv ⟨k', v'⟩ q q' hv' hq hs hs'
            simp only [List.append_assoc, List.cons_append] at hq
            obtain ⟨rfl, hrest⟩ := h.key_told k k' _ _ hq
            obtain ⟨rfl, rfl⟩ := ih (k, v) hkv (ht _ hkv) v' q q' hv' (List.tail_eq_of_cons_eq hrest)
              hs hs'
            exact ⟨rfl, rfl⟩
          obtain ⟨rfl, rfl⟩ := join_inj (by decide) htold ht' (fun kv _ => hhead kv) heq
          exact ⟨rfl, rfl⟩

end Print

end Lib.Json
