import Mathlib.Data.List.Nodup
import Mathlib.Tactic.Common

/-! A loop over a batch that stops at the first item that raises.

    `f x s` tries one item: it finishes it, leaves it, or raises, and says what the state is then.
    `sweep` lets an exception through; `turns` is the loop that would not. `sweep_mark` tells what a
    sweep leaves by what it `reached`, and `reached_all` when that is everything that would finish. -/

namespace Lib.Sweep

variable {α S ε κ : Type*}

/-- What an item came to. -/
structure Turn (α ε : Type*) where
  item : α
  result : Except ε Bool

def Turn.finished (x : Turn α ε) : Bool :=
  match x.result with
  | .ok true => true
  | _ => false

def Turn.raised (x : Turn α ε) : Bool :=
  match x.result with
  | .error _ => true
  | _ => false

variable (f : α → S → Except ε Bool × S)

/-- Try every item, whatever became of those before it. -/
def turns : List α → S → List (Turn α ε)
  | [], _ => []
  | x :: xs, s => ⟨x, (f x s).1⟩ :: turns xs (f x s).2

/-- Try the items up to the first that raises. -/
def sweep : List α → S → Except ε ℕ × S
  | [], s => (.ok 0, s)
  | x :: xs, s =>
      match f x s with
      | (.error e, s) => (.error e, s)
      | (.ok b, s) =>
          let (n, s) := sweep xs s
          (n.map (· + b.toNat), s)

/-- The items a sweep finishes: those before the first that raises. -/
def reached : List (Turn α ε) → List α
  | [] => []
  | x :: rest =>
      if x.raised then [] else if x.finished then x.item :: reached rest else reached rest

variable {f} {x : Turn α ε} {ts : List (Turn α ε)}

theorem Turn.not_raised (h : x.finished = true) : x.raised = false := by
  unfold Turn.finished at h
  unfold Turn.raised
  split at h
  · next hx => rw [hx]
  · cases h

theorem turns_items : ∀ {xs : List α} {s : S}, (turns f xs s).map Turn.item = xs
  | [], _ => rfl
  | _ :: xs, _ => by rw [turns, List.map_cons, turns_items]

theorem mem_reached {a : α} (h : a ∈ reached ts) : a ∈ ts.map Turn.item := by
  induction ts with
  | nil => exact h
  | cons x ts ih =>
      unfold reached at h
      split at h
      · cases h
      · split at h
        · rcases List.mem_cons.mp h with rfl | h
          · exact List.mem_cons_self
          · exact List.mem_cons_of_mem _ (ih h)
        · exact List.mem_cons_of_mem _ (ih h)

/-- A sweep finishes all that would finish if and only if none of it comes after an item that
    raises. -/
theorem reached_all (hnd : (ts.map Turn.item).Nodup) :
    (∀ x ∈ ts, x.finished = true → x.item ∈ reached ts) ↔
      ts.Pairwise fun x y => x.raised = true → y.finished = false := by
  induction ts with
  | nil => simp
  | cons x ts ih =>
      obtain ⟨hx, hnd⟩ := List.nodup_cons.mp hnd
      have hne : ∀ y ∈ ts, y.item ≠ x.item := fun y hy h => hx (h ▸ List.mem_map_of_mem hy)
      rw [List.pairwise_cons, ← ih hnd]
      by_cases hr : x.raised = true
      · have hnil : reached (x :: ts) = [] := by rw [reached, if_pos hr]
        rw [hnil]
        constructor
        · intro h
          have hno : ∀ y ∈ ts, y.finished = false := fun y hy =>
            Bool.eq_false_iff.mpr fun hf => List.not_mem_nil (h y (List.mem_cons_of_mem _ hy) hf)
          exact ⟨fun y hy _ => hno y hy, fun y hy hf => by rw [hno y hy] at hf; cases hf⟩
        · rintro ⟨h, -⟩ y hy hf
          rcases List.mem_cons.mp hy with rfl | hy
          · rw [Turn.not_raised hf] at hr
            cases hr
          · rw [h y hy hr] at hf
            cases hf
      · have hfirst : ∀ y ∈ ts, x.raised = true → y.finished = false := fun _ _ h => absurd h hr
        have hstep : ∀ y ∈ ts, (y.item ∈ reached (x :: ts) ↔ y.item ∈ reached ts) := by
          intro y hy
          rw [reached, if_neg hr]
          split
          · exact ⟨fun h => (List.mem_cons.mp h).resolve_left (hne y hy), List.mem_cons_of_mem _⟩
          · rfl
        constructor
        · intro h
          exact ⟨hfirst, fun y hy hf => (hstep y hy).mp (h y (List.mem_cons_of_mem _ hy) hf)⟩
        · rintro ⟨-, h⟩ y hy hf
          rcases List.mem_cons.mp hy with rfl | hy
          · rw [reached, if_neg hr, if_pos hf]
            exact List.mem_cons_self
          · exact (hstep y hy).mpr (h y hy hf)

/-- What every try of an item of the batch keeps, a sweep keeps. -/
theorem inv_sweep {I : S → Prop} : ∀ {xs : List α} {s : S}, (∀ x ∈ xs, ∀ s, I s → I (f x s).2) →
    I s → I (sweep f xs s).2
  | [], _, _, hi => hi
  | x :: xs, s, hf, hi => by
      have hx := hf x List.mem_cons_self s hi
      rw [sweep]
      split <;> rename_i heq <;> rw [heq] at hx
      · exact hx
      · exact inv_sweep (fun y hy => hf y (List.mem_cons_of_mem _ hy)) hx

/-- What every try does to the state, a sweep does. -/
theorem rel_sweep {R : S → S → Prop} (hrefl : ∀ s, R s s) (htrans : ∀ s t u, R s t → R t u → R s u)
    (hf : ∀ x s, R s (f x s).2) (xs : List α) (s : S) : R s (sweep f xs s).2 :=
  inv_sweep (I := R s) (fun x _ t ht => htrans s t _ ht (hf x t)) (hrefl s)

/-- When finishing an item marks its key `g`, and nothing else marks any, a sweep marks the keys of
    what it reached. -/
theorem sweep_mark {g : α → κ} {M H : S → κ → Prop} (hhas : ∀ x s k, H (f x s).2 k ↔ H s k)
    (hmark : ∀ x s k, M (f x s).2 k ↔ M s k ∨ (f x s).1 = .ok true ∧ k = g x ∧ H s k) (k : κ) :
    ∀ (xs : List α) (s : S), M (sweep f xs s).2 k ↔
      M s k ∨ k ∈ (reached (turns f xs s)).map g ∧ H s k
  | [], s => by simp [sweep, turns, reached]
  | x :: xs, s => by
      have hm := hmark x s k
      have hh := hhas x s k
      cases hr : f x s with
      | mk r s' =>
          rw [hr] at hm hh
          cases r with
          | error e =>
              simp only [sweep, turns, reached, hr, Turn.raised, if_true, List.map_nil,
                List.not_mem_nil, false_and, or_false]
              simpa using hm
          | ok b =>
              have ih := sweep_mark hhas hmark k xs s'
              rw [hm, hh] at ih
              have hsweep : (sweep f (x :: xs) s).2 = (sweep f xs s').2 := by rw [sweep, hr]
              rw [hsweep, ih]
              cases b with
              | false => simp [turns, reached, hr, Turn.raised, Turn.finished]
              | true =>
                  simp only [turns, reached, hr, Turn.raised, Turn.finished, if_true, List.map_cons,
                    List.mem_cons, Bool.false_eq_true, if_false]
                  tauto

end Lib.Sweep
