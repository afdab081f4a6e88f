import Mathlib.Data.List.Chain
import Mathlib.Data.List.Infix
import Mathlib.Tactic.Common

/-! Fields written out one after another with separators between them, and nothing escaped.

    What is written can be read one way only as far as no separator begins inside a field, and with a
    separator that does not overlap itself that is: as far as no field contains one (`split_of_free`). -/

namespace Lib.Delimited

variable {α : Type*} {sep f f' r r' : List α}

/-- No separator of `S` begins inside the field, as it stands before the rest. -/
def Closed (S : List α → Prop) (f rest : List α) : Prop :=
  ∀ front sep back, S sep → f ++ rest = front ++ (sep ++ back) → f.length ≤ front.length

/-- Two fields in which no separator begins, each before a separator, are read alike. -/
theorem Closed.inj {S : List α → Prop} {sep' : List α} (hsep : S sep) (hsep' : S sep')
    (h : Closed S f (sep ++ r)) (h' : Closed S f' (sep' ++ r'))
    (heq : f ++ (sep ++ r) = f' ++ (sep' ++ r')) : f = f' ∧ sep ++ r = sep' ++ r' :=
  List.append_inj heq (le_antisymm (h f' sep' r' hsep' heq) (h' f sep r hsep heq.symm))

/-- No end of it, short of the whole, is a start of it. -/
def Unbordered (sep : List α) : Prop :=
  ∀ v w, v ≠ [] → w ≠ [] → sep = v ++ w → ¬ w <+: sep

/-- An unbordered separator begins inside a field only where the field contains it. -/
theorem Unbordered.closed (hsep : Unbordered sep) (h : ¬ sep <:+: f) :
    Closed (· = sep) f (sep ++ r) := by
  intro front q back hq heq
  rw [show q = sep from hq] at heq
  by_contra hlt
  obtain ⟨x, rfl, hrest⟩ : ∃ x, f = front ++ x ∧ x ++ (sep ++ r) = sep ++ back := by
    rcases List.append_eq_append_iff.mp heq with ⟨x, rfl, -⟩ | ⟨x, rfl, hx⟩
    · exact absurd (by simp) hlt
    · exact ⟨x, rfl, hx.symm⟩
  have hx : x ≠ [] := by
    rintro rfl
    exact hlt (by simp)
  rcases List.append_eq_append_iff.mp hrest with ⟨w, rfl, hw⟩ | ⟨w, rfl, -⟩
  · -- the separator goes on behind the field, over the one that stands there
    rcases List.eq_nil_or_concat w with rfl | hw'
    · exact h ⟨front, [], by simp⟩
    · refine hsep x w hx (by rintro rfl; simp at hw') rfl ?_
      exact List.prefix_of_prefix_length_le ⟨back, rfl⟩ ⟨r, hw⟩ (by simp)
  · exact h ⟨front, w, by simp⟩

/-- Two fields free of a separator that does not overlap itself are read alike before it. -/
theorem split_of_free (hsep : Unbordered sep) (h : ¬ sep <:+: f) (h' : ¬ sep <:+: f')
    (heq : f ++ (sep ++ r) = f' ++ (sep ++ r')) : f = f' ∧ r = r' := by
  obtain ⟨hf, hrest⟩ := Closed.inj (S := (· = sep)) rfl rfl (hsep.closed h) (hsep.closed h') heq
  exact ⟨hf, List.append_cancel_left hrest⟩

/-- A separator whose first item does not recur in it does not overlap itself. -/
theorem unbordered_of_head {a : α} {tail : List α} (h : a ∉ tail) : Unbordered (a :: tail) := by
  rintro v w hv hw heq ⟨t, ht⟩
  obtain ⟨b, w, rfl⟩ := List.exists_cons_of_ne_nil hw
  obtain ⟨c, v, rfl⟩ := List.exists_cons_of_ne_nil hv
  obtain ⟨rfl, -⟩ := List.cons.inj ht
  obtain ⟨-, rfl⟩ := List.cons.inj heq
  exact h (by simp)

/-- Nor does one that starts with an item twice, and has it nowhere else twice in a row or at its end. -/
theorem unbordered_of_double {a c : α} {tail : List α}
    (h : (a :: tail).IsChain fun x y => ¬ (x = a ∧ y = a)) (hlast : tail.getLast? = some c) (hc : c ≠ a) :
    Unbordered (a :: a :: tail) := by
  rintro v w hv hw heq ⟨t, ht⟩
  obtain ⟨b, w, rfl⟩ := List.exists_cons_of_ne_nil hw
  obtain ⟨d, v, rfl⟩ := List.exists_cons_of_ne_nil hv
  obtain ⟨rfl, ht⟩ := List.cons.inj ht
  have htail : b :: tail = v ++ b :: w := (List.cons.inj heq).2
  cases w with
  | nil =>
      have hend := congrArg List.getLast? htail
      rw [List.getLast?_concat, List.getLast?_cons, hlast] at hend
      exact hc (Option.some.inj hend)
  | cons e w =>
      obtain ⟨rfl, -⟩ := List.cons.inj ht
      rw [htail] at h
      have hpair := h.right_of_append
      rw [List.isChain_cons_cons] at hpair
      exact hpair.1 ⟨rfl, rfl⟩

/-- Of two separators that start alike and end in an item that stands nowhere before in the second's tail,
    the second ends inside the first if it begins before it. -/
theorem ends_within {front field o l l' : List α} {c : α} (hl' : c ∉ l')
    (hlt : front.length ≤ field.length)
    (h : field ++ (o ++ (l ++ c :: r)) = front ++ (o ++ (l' ++ c :: r'))) :
    front.length + l'.length ≤ field.length + l.length := by
  have hshift : (field ++ o ++ l) ++ c :: r = (front ++ o) ++ (l' ++ c :: r') := by simpa using h
  obtain ⟨z, hz, htail⟩ : ∃ z, field ++ o ++ l = front ++ o ++ z ∧ l' ++ c :: r' = z ++ c :: r := by
    rcases List.append_eq_append_iff.mp hshift with ⟨z, hz, htail⟩ | h
    · obtain rfl : z = [] := by
        have hlength := congrArg List.length hz
        simp only [List.length_append] at hlength
        exact List.length_eq_zero_iff.mp (by omega)
      exact ⟨[], by simpa using hz.symm, by simpa using htail.symm⟩
    · exact h
  have hwithin : l'.length ≤ z.length := by
    rcases List.append_eq_append_iff.mp htail with ⟨a, rfl, -⟩ | ⟨a, rfl, ha⟩
    · simp
    · cases a with
      | nil => simp
      | cons b a => exact absurd (by simp [(List.cons.inj ha).1]) hl'
  have hlength := congrArg List.length hz
  simp only [List.length_append] at hlength
  omega

/-- What a rendering tells apart: of two values it writes alike that are `Plain` nothing that shows is
    different, and every other value is written as one that shows something else. -/
structure ReadsApart {β γ δ : Type*} (render : β → γ) (alike : β → β → Prop) (shown : β → δ)
    (Plain : β → Prop) : Prop where
  apart : ∀ a b, alike a b → Plain a → Plain b → render a = render b → shown a = shown b
  forged : ∀ a, ¬ Plain a → ∃ b, alike b a ∧ shown b ≠ shown a ∧ render b = render a

end Lib.Delimited
