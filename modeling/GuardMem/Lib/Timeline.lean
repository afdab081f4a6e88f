import GuardMem.Lib.Pointer
import Mathlib.Data.Set.Finite.Basic
import Mathlib.Order.WellFoundedSet

/-! Versions that replace one another, each valid over a half-open interval `[start, stop)`.

    When each replaced version stops where its replacement starts and a version that nothing has
    replaced does not stop, a chain of versions tiles the time from its first start onwards: at most one
    version holds at any instant (`Tiles.unique`), and one does at each instant from there on
    (`Tiles.covers`). -/

namespace Lib.Pointer

variable {ι : Type*} {next : ι → Option ι}

/-- Two nodes on the way from one are on the way from one to the other. -/
theorem leads_total {a b c : ι} (hb : Leads next a b) (hc : Leads next a c) :
    Leads next b c ∨ Leads next c b := by
  refine Relation.ReflTransGen.total_of_right_unique (fun x y z hy hz => ?_) hb hc
  exact Option.some.inj (Eq.trans (Eq.symm hy) hz)

/-- Without a cycle, the pointers out of finitely many nodes are followed in a well-founded order. -/
theorem Acyclic.wellFoundedOn (h : Acyclic next) {s : Set ι} (hs : s.Finite) :
    s.WellFoundedOn fun b a => Relation.TransGen (Edge next) a b := by
  have : IsStrictOrder ι fun b a => Relation.TransGen (Edge next) a b :=
    { irrefl := h, trans := fun _ _ _ hab hbc => Relation.TransGen.trans hbc hab }
  exact hs.wellFoundedOn

end Lib.Pointer

namespace Lib.Timeline

open Lib.Pointer

variable {ι T : Type*} [LinearOrder T] (next : ι → Option ι) (start : ι → T) (stop : ι → Option T)

/-- The version holds at an instant. -/
def HoldsAt (t : T) (a : ι) : Prop := start a ≤ t ∧ ∀ u ∈ stop a, t < u

instance (t : T) (a : ι) : Decidable (HoldsAt start stop t a) := inferInstanceAs (Decidable (_ ∧ _))

/-- Each version of `s` stops where the next of `s` starts, or not at all. -/
structure Tiles (s : Set ι) : Prop where
  closed : ∀ a ∈ s, ∀ b ∈ next a, b ∈ s
  abuts : ∀ a ∈ s, ∀ b ∈ next a, stop a = some (start b)
  forward : ∀ a ∈ s, ∀ u ∈ stop a, start a ≤ u
  last : ∀ a ∈ s, next a = none → stop a = none

variable {next start stop} {s : Set ι} {first a b : ι} {t : T}

theorem Tiles.mem (h : Tiles next start stop s) (ha : a ∈ s) (hab : Leads next a b) : b ∈ s := by
  induction hab with
  | refl => exact ha
  | tail _ he ih => exact h.closed _ ih _ he

theorem Tiles.start_mono (h : Tiles next start stop s) (ha : a ∈ s) (hab : Leads next a b) :
    start a ≤ start b := by
  induction hab with
  | refl => exact le_rfl
  | @tail c d hac he ih =>
      have hc := h.mem ha hac
      exact ih.trans (h.forward c hc _ (h.abuts c hc d he))

/-- A version holds no longer once another is reached from it. -/
theorem Tiles.over (h : Tiles next start stop s) (ha : a ∈ s) (hab : Leads next a b) (hne : a ≠ b)
    (hat : HoldsAt start stop t a) : ¬ HoldsAt start stop t b := by
  rcases Relation.ReflTransGen.cases_head hab with rfl | ⟨c, hac, hcb⟩
  · exact absurd rfl hne
  · intro hbt
    have hlt : t < start c := hat.2 _ (h.abuts a ha c hac)
    have hle : start c ≤ t := (h.start_mono (h.closed a ha c hac) hcb).trans hbt.1
    exact absurd hlt (not_lt.mpr hle)

/-- CORRECT: of the versions reached from one, at most one holds. -/
theorem Tiles.unique (h : Tiles next start stop s) (hfirst : first ∈ s) (ha : Leads next first a)
    (hb : Leads next first b) (hat : HoldsAt start stop t a) (hbt : HoldsAt start stop t b) : a = b := by
  by_contra hne
  rcases leads_total ha hb with hab | hba
  · exact h.over (h.mem hfirst ha) hab hne hat hbt
  · exact h.over (h.mem hfirst hb) hba (Ne.symm hne) hbt hat

/-- CORRECT: from the start of a version onwards, one of those reached from it holds. -/
theorem Tiles.covers (h : Tiles next start stop s) (hac : Acyclic next) (hs : s.Finite)
    (hfirst : first ∈ s) : start first ≤ t → ∃ a, Leads next first a ∧ HoldsAt start stop t a := by
  refine (hac.wellFoundedOn hs).induction
    (P := fun a => start a ≤ t → ∃ b, Leads next a b ∧ HoldsAt start stop t b) hfirst ?_
  intro a ha ih hstart
  by_cases hold : HoldsAt start stop t a
  · exact ⟨a, .refl, hold⟩
  · cases hn : next a with
    | none =>
        have hstop := h.last a ha hn
        exact absurd ⟨hstart, by simp [hstop]⟩ hold
    | some b =>
        have hstop := h.abuts a ha b hn
        have hbt : start b ≤ t := by
          by_contra hlt
          exact hold ⟨hstart, by simpa [hstop] using hlt⟩
        obtain ⟨c, hbc, hct⟩ := ih b (h.closed a ha b hn) (.single hn) hbt
        exact ⟨c, .head hn hbc, hct⟩

end Lib.Timeline
