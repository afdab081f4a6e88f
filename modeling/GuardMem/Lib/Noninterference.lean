import GuardMem.Lib.Transition
import Mathlib.Data.List.Basic
import Mathlib.Tactic.Common

/-! Noninterference by unwinding.

    Some of the labels of a run are one party's own, and what the party sees is a function of the state.
    If its own labels take its view on by themselves and no other label changes it, then what it sees
    after a run is worked out from its own labels alone (`view_run`), and two runs in which it did the
    same look the same to it (`view_eq_of_same`). Where a step is partial, it is enough that the party's
    labels take like views to like views (`view_eq_of_unwinding`). A reading that mixes the party's entries
    with others' is told by the two together (`eq_of_parts`). -/

namespace Lib.Noninterference

variable {S L V : Type*} {step : S → L → S} {mine : L → Bool} {I : S → Prop} {view : S → V}
  {own : V → L → V}

/-- Two runs in which the party did the same. -/
def Same (mine : L → Bool) (xs ys : List L) : Prop := xs.filter mine = ys.filter mine

theorem Same.refl (xs : List L) : Same mine xs xs := rfl

theorem Same.append {xs ys xs' ys' : List L} (h : Same mine xs ys) (h' : Same mine xs' ys') :
    Same mine (xs ++ xs') (ys ++ ys') := by
  unfold Same at *
  rw [List.filter_append, List.filter_append, h, h']

/-- Whatever the others do, the party has done nothing. -/
theorem same_nil {xs : List L} (h : ∀ l ∈ xs, mine l = false) : Same mine xs [] := by
  simpa [Same] using h

/-- A label of the party's own is in both runs or in neither. -/
theorem Same.mem {xs ys : List L} (h : Same mine xs ys) {l : L} (hl : mine l = true) :
    l ∈ xs ↔ l ∈ ys := by
  have hmem : l ∈ xs.filter mine ↔ l ∈ ys.filter mine := by rw [h]
  simpa [hl] using hmem

theorem inv_foldl (hinv : ∀ s l, I s → I (step s l)) : ∀ {ls : List L} {s : S}, I s → I (ls.foldl step s)
  | [], _, hi => hi
  | l :: ls, s, hi => by
      rw [List.foldl_cons]
      exact inv_foldl hinv (hinv s l hi)

/-- What the party sees after a run comes of its own labels alone. -/
theorem view_run (hinv : ∀ s l, I s → I (step s l))
    (hmine : ∀ s l, I s → mine l = true → view (step s l) = own (view s) l)
    (hother : ∀ s l, I s → mine l = false → view (step s l) = view s) :
    ∀ {ls : List L} {s : S}, I s → view (ls.foldl step s) = (ls.filter mine).foldl own (view s)
  | [], _, _ => rfl
  | l :: ls, s, hi => by
      have ih : view (ls.foldl step (step s l)) = (ls.filter mine).foldl own (view (step s l)) :=
        view_run hinv hmine hother (hinv s l hi)
      rw [List.foldl_cons, ih]
      cases hl : mine l with
      | true => rw [List.filter_cons_of_pos hl, List.foldl_cons, hmine s l hi hl]
      | false => rw [List.filter_cons_of_neg (by simp [hl]), hother s l hi hl]

/-- Two runs in which the party did the same look the same to it. -/
theorem view_eq_of_same (hinv : ∀ s l, I s → I (step s l))
    (hmine : ∀ s l, I s → mine l = true → view (step s l) = own (view s) l)
    (hother : ∀ s l, I s → mine l = false → view (step s l) = view s) {xs ys : List L} {s : S}
    (hs : Same mine xs ys) (hi : I s) : view (xs.foldl step s) = view (ys.foldl step s) := by
  rw [view_run hinv hmine hother hi, view_run hinv hmine hother hi, hs]

/-! ### Partial steps -/

section

open Lib.Transition

variable {pstep : S → L → Option S} {Q : S → L → Prop}

/-- Labels of others leave the view alone, all along a run of them. -/
theorem view_of_others (hinv : ∀ s l s', pstep s l = some s' → Q s l → I s → I s')
    (hother : ∀ s l s', pstep s l = some s' → Q s l → I s → mine l = false → view s' = view s) :
    ∀ {ls : List L} {s t : S}, run pstep s ls = some t → Along pstep Q s ls → I s →
      (∀ l ∈ ls, mine l = false) → I t ∧ view t = view s
  | [], s, t, h, _, hi, _ => by
      obtain rfl := Option.some.inj h
      exact ⟨hi, rfl⟩
  | l :: ls, s, t, h, ⟨hq, hqs⟩, hi, hls => by
      obtain ⟨s', hs, hr⟩ := run_cons.mp h
      obtain ⟨hl, hls⟩ := List.forall_mem_cons.mp hls
      obtain ⟨ht, hview⟩ := view_of_others hinv hother hr (hqs s' hs) (hinv s l s' hs hq hi) hls
      exact ⟨ht, hview.trans (hother s l s' hs hq hi hl)⟩

/-- A run splits at the first label of the party's own. -/
theorem exists_first {l : L} : ∀ {xs ls : List L}, xs.filter mine = l :: ls →
    ∃ pre post, xs = pre ++ l :: post ∧ (∀ k ∈ pre, mine k = false) ∧ post.filter mine = ls ∧ mine l = true
  | [], _, h => by cases h
  | x :: xs, ls, h => by
      cases hx : mine x with
      | true =>
          rw [List.filter_cons_of_pos hx] at h
          obtain ⟨rfl, rfl⟩ := List.cons.inj h
          exact ⟨[], xs, rfl, fun _ hk => (nomatch hk), rfl, hx⟩
      | false =>
          rw [List.filter_cons_of_neg (by simp [hx])] at h
          obtain ⟨pre, post, rfl, hpre, hpost, hl⟩ := exists_first h
          exact ⟨x :: pre, post, rfl, List.forall_mem_cons.mpr ⟨hx, hpre⟩, hpost, hl⟩

/-- Unwinding for partial steps: the party's labels take like views to like views, and others' leave them
    alone; then two runs in which the party did the same look the same to it. -/
theorem view_eq_of_unwinding (hinv : ∀ s l s', pstep s l = some s' → Q s l → I s → I s')
    (hmine : ∀ s t l s' t', pstep s l = some s' → pstep t l = some t' → Q s l → Q t l → I s → I t →
      mine l = true → view s = view t → view s' = view t')
    (hother : ∀ s l s', pstep s l = some s' → Q s l → I s → mine l = false → view s' = view s)
    {own : List L} : ∀ {xs ys : List L} {s t s' t' : S}, xs.filter mine = own → ys.filter mine = own →
      run pstep s xs = some s' → run pstep t ys = some t' → Along pstep Q s xs → Along pstep Q t ys →
      I s → I t → view s = view t → view s' = view t' := by
  induction own with
  | nil =>
      intro xs ys s t s' t' hxs hys hs ht hqs hqt his hit hview
      rw [List.filter_eq_nil_iff] at hxs hys
      have hleft := view_of_others hinv hother hs hqs his fun l hl => by simpa using hxs l hl
      have hright := view_of_others hinv hother ht hqt hit fun l hl => by simpa using hys l hl
      rw [hleft.2, hright.2, hview]
  | cons l own ih =>
      intro xs ys s t s' t' hxs hys hs ht hqs hqt his hit hview
      obtain ⟨pre, post, rfl, hpre, hpost, hl⟩ := exists_first hxs
      obtain ⟨pre', post', rfl, hpre', hpost', -⟩ := exists_first hys
      obtain ⟨s₁, hs₁, hrest⟩ := run_append.mp hs
      obtain ⟨t₁, ht₁, hrest'⟩ := run_append.mp ht
      obtain ⟨s₂, hs₂, hrest⟩ := run_cons.mp hrest
      obtain ⟨t₂, ht₂, hrest'⟩ := run_cons.mp hrest'
      obtain ⟨hq₀, hq⟩ := hqs.append
      obtain ⟨hq₀', hq'⟩ := hqt.append
      obtain ⟨hi₁, hv₁⟩ := view_of_others hinv hother hs₁ hq₀ his hpre
      obtain ⟨hi₁', hv₁'⟩ := view_of_others hinv hother ht₁ hq₀' hit hpre'
      obtain ⟨hql, hqrest⟩ := hq s₁ hs₁
      obtain ⟨hql', hqrest'⟩ := hq' t₁ ht₁
      have hv : view s₁ = view t₁ := by rw [hv₁, hv₁', hview]
      exact ih hpost hpost' hrest hrest' (hqrest s₂ hs₂) (hqrest' t₂ ht₂) (hinv _ _ _ hs₂ hql hi₁)
        (hinv _ _ _ ht₂ hql' hi₁') (hmine _ _ _ _ _ hs₂ ht₂ hql hql' hi₁ hi₁' hl hv)

end

/-- A list is its own part together with where the rest stands in it. -/
theorem eq_of_parts {α : Type*} {p : α → Bool} : ∀ {xs ys : List α}, xs.filter p = ys.filter p →
    (xs.map fun x => if p x then none else some x) = (ys.map fun x => if p x then none else some x) →
    xs = ys
  | [], [], _, _ => rfl
  | [], _ :: _, _, hrest => by cases hrest
  | _ :: _, [], _, hrest => by cases hrest
  | x :: xs, y :: ys, hown, hrest => by
      rw [List.map_cons, List.map_cons, List.cons.injEq] at hrest
      obtain ⟨hhead, htail⟩ := hrest
      cases hx : p x <;> cases hy : p y <;> simp only [hx, hy, if_true, Bool.false_eq_true, if_false,
        Option.some.injEq, reduceCtorEq] at hhead
      · rw [List.filter_cons_of_neg (by simp [hx]), List.filter_cons_of_neg (by simp [hy])] at hown
        rw [hhead, eq_of_parts hown htail]
      · rw [List.filter_cons_of_pos hx, List.filter_cons_of_pos hy, List.cons.injEq] at hown
        rw [hown.1, eq_of_parts hown.2 htail]

end Lib.Noninterference
