import GuardMem.Lib.Pointer
import Mathlib.Data.List.Chain

/-! Lists of versions, each pointing at the one written after it.

    CORRECT: replacing the last version by one that points at a new last one keeps the line
    (`Line.extend`), the last is the only one that points nowhere (`Line.open_eq`), and following the
    pointers from any of them ends there (`Line.leads`). -/

namespace Lib.Lineage

open Lib.Pointer

variable {α ι : Type*} (id : α → ι) (next : α → Option ι)

/-- Each version points at the one behind it, and the last one nowhere. -/
structure Line (xs : List α) : Prop where
  linked : xs.IsChain fun a b => next a = some (id b)
  ends : ∀ a ∈ xs.getLast?, next a = none

variable {id next} {xs : List α} {a a' b : α}

theorem Line.nil : Line id next ([] : List α) := ⟨.nil, by simp⟩

theorem Line.singleton (h : next a = none) : Line id next [a] := ⟨.singleton a, by simpa using h⟩

/-- A version behind which there is another points at one. -/
theorem Line.points (h : Line id next (xs ++ [b])) (ha : a ∈ xs) : next a ≠ none := by
  obtain ⟨pre, post, rfl⟩ := List.append_of_mem ha
  have hsplit : pre ++ a :: post ++ [b] = pre ++ ([a] ++ (post ++ [b])) := by simp
  have hlinked := h.linked
  rw [hsplit] at hlinked
  have hnext := (List.isChain_append.mp (List.isChain_append.mp hlinked).2.1).2.2 a (by simp)
  cases post with
  | nil => exact fun hnone => absurd (hnone.symm.trans (hnext b (by simp))) (by simp)
  | cons c post => exact fun hnone => absurd (hnone.symm.trans (hnext c (by simp))) (by simp)

/-- A new version behind the last one, which now points at it. -/
theorem Line.extend (h : Line id next (xs ++ [a])) (hid : id a' = id a) (hnext : next a' = some (id b))
    (hb : next b = none) : Line id next (xs ++ [a', b]) := by
  obtain ⟨hxs, -, hlast⟩ := List.isChain_append.mp h.linked
  refine ⟨List.isChain_append.mpr ⟨hxs, ?_, ?_⟩, by simpa using hb⟩
  · exact List.isChain_cons_cons.mpr ⟨hnext, .singleton b⟩
  · intro c hc d hd
    obtain rfl : a' = d := by simpa using hd
    rw [hid]
    exact hlast c hc a (by simp)

/-- What neither renames a version nor turns its pointer keeps the line. -/
theorem Line.map {f : α → α} (hid : ∀ a, id (f a) = id a) (hnext : ∀ a, next (f a) = next a)
    (h : Line id next xs) : Line id next (xs.map f) := by
  refine ⟨?_, fun a ha => ?_⟩
  · exact List.isChain_map_of_isChain f (fun a b hab => by rw [hnext, hid]; exact hab) h.linked
  · obtain ⟨c, hc, rfl⟩ := by simpa using ha
    exact (hnext c).trans (h.ends c hc)

/-- The last version is the one that points nowhere. -/
theorem Line.open_eq (h : Line id next xs) : xs.filter (fun a => (next a).isNone) = xs.getLast?.toList := by
  rcases List.eq_nil_or_concat xs with rfl | ⟨ys, b, rfl⟩
  · rfl
  · rw [List.concat_eq_append] at h ⊢
    have hys : ys.filter (fun a => (next a).isNone) = [] := by
      refine List.filter_eq_nil_iff.mpr fun a ha => ?_
      simpa using h.points ha
    simp [List.filter_append, hys, h.ends b (by simp)]

/-- Following the pointers from a version ends at the last one. -/
theorem Line.leads {step : ι → Option ι} (h : Line id next xs)
    (hstep : ∀ a ∈ xs, step (id a) = next a) : ∀ a ∈ xs, ∀ b ∈ xs.getLast?, Leads step (id a) (id b) := by
  induction xs with
  | nil => intro a ha; cases ha
  | cons c xs ih =>
      intro a ha b hb
      cases xs with
      | nil =>
          obtain rfl := List.mem_singleton.mp ha
          obtain rfl : a = b := by simpa using hb
          exact .refl
      | cons d xs =>
          obtain ⟨hcd, hlinked⟩ := List.isChain_cons_cons.mp h.linked
          have hlast : b ∈ (d :: xs).getLast? := by simpa [List.getLast?_cons_cons] using hb
          have htail : ∀ a ∈ d :: xs, Leads step (id a) (id b) := fun a ha =>
            ih ⟨hlinked, fun e he => h.ends e (by simpa [List.getLast?_cons_cons] using he)⟩
              (fun e he => hstep e (List.mem_cons_of_mem _ he)) a ha b hlast
          rcases List.mem_cons.mp ha with rfl | ha
          · exact .head ((hstep a List.mem_cons_self).trans hcd) (htail d List.mem_cons_self)
          · exact htail a ha

end Lib.Lineage
