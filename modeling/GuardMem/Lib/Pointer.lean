import Mathlib.Logic.Relation
import Mathlib.Tactic.Common

/-! Graphs in which a node points to at most one other: `next : ι → Option ι`.

    Setting a node's pointer for the first time keeps the graph acyclic exactly when its target does
    not already lead back to it. -/

namespace Lib.Pointer

variable {ι : Type*} (next : ι → Option ι)

/-- One pointer. -/
def Edge (a b : ι) : Prop := next a = some b

/-- Following the pointers from `a` arrives at `b`, in zero or more hops. -/
abbrev Leads (a b : ι) : Prop := Relation.ReflTransGen (Edge next) a b

/-- No node leads back to itself in one or more hops. -/
def Acyclic : Prop := ∀ a, ¬ Relation.TransGen (Edge next) a a

variable {next}

/-- Setting the pointer of `x`, so far unset, to `y`. -/
theorem edge_update [DecidableEq ι] {x y a b : ι} :
    Edge (Function.update next x (some y)) a b ↔ (a = x ∧ b = y) ∨ (a ≠ x ∧ Edge next a b) := by
  by_cases h : a = x
  · subst h; simp [Edge, eq_comm]
  · simp [Edge, h]

/-- A walk of the old graph that starts elsewhere survives the new pointer, since `x` was a dead end
    in it. -/
theorem leads_update [DecidableEq ι] {x y a b : ι} (hx : next x = none) (h : Leads next a b) :
    Relation.ReflTransGen (Edge (Function.update next x (some y))) a b := by
  induction h with
  | refl => exact .refl
  | @tail c d _ he ih =>
      have hc : c ≠ x := by rintro rfl; simp [Edge, hx] at he
      exact ih.tail (edge_update.mpr (Or.inr ⟨hc, he⟩))

/-- Pointing a dead end `x` at `y` keeps the graph acyclic if and only if `y` does not lead to `x`. -/
theorem acyclic_update_iff [DecidableEq ι] {x y : ι} (hx : next x = none) (h : Acyclic next) :
    Acyclic (Function.update next x (some y)) ↔ ¬ Leads next y x := by
  constructor
  · intro hac hyx
    have hedge : Edge (Function.update next x (some y)) x y := by simp [Edge]
    exact hac x (.head' hedge (leads_update hx hyx))
  · intro hyx a hcyc
    -- the cycle must use the new pointer: otherwise it was there before
    have key : ∀ {c d}, Relation.TransGen (Edge (Function.update next x (some y))) c d →
        Relation.TransGen (Edge next) c d ∨ (Leads next c x ∧ Leads next y d) := by
      intro c d hcd
      induction hcd with
      | single he =>
          rcases edge_update.mp he with ⟨rfl, rfl⟩ | ⟨_, he⟩
          · exact Or.inr ⟨.refl, .refl⟩
          · exact Or.inl (.single he)
      | tail _ he ih =>
          rcases edge_update.mp he with ⟨rfl, rfl⟩ | ⟨_, he⟩
          · rcases ih with ih | ⟨hcx, _⟩
            · exact Or.inr ⟨ih.to_reflTransGen, .refl⟩
            · exact Or.inr ⟨hcx, .refl⟩
          · exact ih.imp (·.tail he) (And.imp_right (·.tail he))
    rcases key hcyc with hold | ⟨hax, hya⟩
    · exact h a hold
    · exact hyx (hya.trans hax)

end Lib.Pointer
