import Mathlib.Data.List.Basic
import Mathlib.Data.List.DropRight
import Mathlib.Tactic.Common

/-! A text and its lines.

    A line ends before a character that breaks lines, and a text that ends in one has no empty line behind
    it. Lines that hold no break and do not end in an empty one are read back from where they were joined
    (`lines_join`), and what is stripped of its blank ends begins and ends in no blank. -/

namespace Lib.Lines

variable {α : Type*} (breaks blank : α → Bool)

/-- The lines of a text. -/
def lines : List α → List (List α)
  | [] => []
  | c :: cs =>
      if breaks c then [] :: lines cs
      else match lines cs with
        | [] => [[c]]
        | l :: ls => (c :: l) :: ls

/-- The text without the blanks at its ends. -/
def strip (text : List α) : List α := (text.dropWhile blank).rdropWhile blank

variable {breaks blank} {newline : α} {l : List α} {ls : List (List α)}

theorem intercalate_cons_cons {m : List α} : [newline].intercalate (l :: m :: ls) =
    l ++ newline :: [newline].intercalate (m :: ls) := by
  simp [List.intercalate]

theorem intercalate_singleton : [newline].intercalate [l] = l := by
  simp [List.intercalate]

/-- What is in a text of joined lines is a newline or of one of the lines. -/
theorem mem_join {c : α} : ∀ {ls : List (List α)}, c ∈ [newline].intercalate ls → c = newline ∨ ∃ l ∈ ls, c ∈ l
  | [], h => by simp [List.intercalate] at h
  | [l], h => by
      rw [intercalate_singleton] at h
      exact Or.inr ⟨l, List.mem_cons_self, h⟩
  | l :: l' :: ls, h => by
      rw [intercalate_cons_cons] at h
      rcases List.mem_append.mp h with h | h
      · exact Or.inr ⟨l, List.mem_cons_self, h⟩
      · rcases List.mem_cons.mp h with rfl | h
        · exact Or.inl rfl
        · rcases mem_join h with rfl | ⟨m, hm, hc⟩
          · exact Or.inl rfl
          · exact Or.inr ⟨m, List.mem_cons_of_mem _ hm, hc⟩

theorem lines_line (h : ∀ c ∈ l, breaks c = false) (hl : l ≠ []) : lines breaks l = [l] := by
  induction l with
  | nil => exact absurd rfl hl
  | cons c l ih =>
      obtain ⟨hc, h⟩ := List.forall_mem_cons.mp h
      rw [lines, hc]
      cases l with
      | nil => rfl
      | cons d l =>
          rw [ih h (by simp)]
          rfl

theorem lines_append {rest : List α} (h : ∀ c ∈ l, breaks c = false) (hnewline : breaks newline = true) :
    lines breaks (l ++ newline :: rest) = l :: lines breaks rest := by
  induction l with
  | nil => rw [List.nil_append, lines, if_pos hnewline]
  | cons c l ih =>
      obtain ⟨hc, h⟩ := List.forall_mem_cons.mp h
      rw [List.cons_append, lines, hc, ih h]
      rfl

/-- Lines that were joined are read back. -/
theorem lines_join (hnewline : breaks newline = true) : ∀ {ls : List (List α)},
    (∀ l ∈ ls, ∀ c ∈ l, breaks c = false) → (∀ l ∈ ls.getLast?, l ≠ []) →
      lines breaks ([newline].intercalate ls) = ls
  | [], _, _ => rfl
  | [l], h, hlast => by
      rw [intercalate_singleton, lines_line (h l List.mem_cons_self) (hlast l rfl)]
  | l :: l' :: ls, h, hlast => by
      obtain ⟨hl, hls⟩ := List.forall_mem_cons.mp h
      rw [intercalate_cons_cons, lines_append hl hnewline,
        lines_join hnewline hls fun x hx => hlast x (by rwa [List.getLast?_cons_cons])]

/-- Joined lines before more text. -/
theorem lines_join_append {rest : List α} (hnewline : breaks newline = true) : ∀ {ls : List (List α)}, ls ≠ [] →
    (∀ l ∈ ls, ∀ c ∈ l, breaks c = false) →
      lines breaks ([newline].intercalate ls ++ newline :: rest) = ls ++ lines breaks rest
  | [], hne, _ => absurd rfl hne
  | [l], _, h => by
      rw [intercalate_singleton, lines_append (h l List.mem_cons_self) hnewline, List.singleton_append]
  | l :: l' :: ls, _, h => by
      obtain ⟨hl, hls⟩ := List.forall_mem_cons.mp h
      rw [intercalate_cons_cons, List.append_assoc, List.cons_append, lines_append hl hnewline,
        lines_join_append hnewline (by simp) hls]
      rfl

/-- And a text that breaks its lines in one way only is joined back. -/
theorem join_lines (h : ∀ c ∈ l, breaks c = true → c = newline) (hlast : ∀ c ∈ l.getLast?, breaks c = false) :
    [newline].intercalate (lines breaks l) = l := by
  induction l with
  | nil => rfl
  | cons c l ih =>
      obtain ⟨hc, h⟩ := List.forall_mem_cons.mp h
      have ih' : [newline].intercalate (lines breaks l) = l := ih h fun d hd => hlast d (by
        cases l with
        | nil => cases hd
        | cons e l => rwa [List.getLast?_cons_cons])
      rw [lines]
      cases hbreak : breaks c with
      | true =>
          cases l with
          | nil =>
              rw [hlast c rfl] at hbreak
              cases hbreak
          | cons d l =>
              have hne : lines breaks (d :: l) ≠ [] := by
                rw [lines]
                split
                · simp
                · split <;> simp
              obtain ⟨x, xs, hx⟩ := List.exists_cons_of_ne_nil hne
              rw [if_pos rfl, hx, intercalate_cons_cons, List.nil_append, ← hx, ih',
                hc hbreak]
      | false =>
          rw [if_neg Bool.false_ne_true]
          split
          · next hnil =>
              rw [hnil] at ih'
              rw [← ih']
              rfl
          · next x xs hx =>
              rw [hx] at ih'
              cases xs with
              | nil =>
                  rw [intercalate_singleton] at ih' ⊢
                  rw [ih']
              | cons y ys =>
                  rw [intercalate_cons_cons] at ih' ⊢
                  rw [List.cons_append, ih']

/-- A break at the end of a text ends its last line. -/
theorem lines_concat (hnewline : breaks newline = true) (hl : l ≠ [])
    (hlast : ∀ c ∈ l.getLast?, breaks c = false) :
    lines breaks (l ++ [newline]) = lines breaks l := by
  induction l with
  | nil => exact absurd rfl hl
  | cons c l ih =>
      rw [List.cons_append, lines, lines]
      cases l with
      | nil => simp [lines, hnewline, hlast c rfl]
      | cons d l => rw [ih (by simp) fun e he => hlast e (by rwa [List.getLast?_cons_cons])]

/-- No line holds a break. -/
theorem free_lines : ∀ {text : List α}, ∀ l ∈ lines breaks text, ∀ c ∈ l, breaks c = false
  | [], l, hl, _, _ => by cases hl
  | d :: text, l, hl, c, hc => by
      rw [lines] at hl
      split at hl
      · rcases List.mem_cons.mp hl with rfl | hl
        · cases hc
        · exact free_lines l hl c hc
      · next hd =>
          have ih : ∀ l ∈ lines breaks text, ∀ c ∈ l, breaks c = false := free_lines
          split at hl
          · obtain rfl := List.mem_singleton.mp hl
            obtain rfl := List.mem_singleton.mp hc
            exact Bool.eq_false_iff.mpr hd
          · next x xs hx =>
              rw [hx] at ih
              rcases List.mem_cons.mp hl with rfl | hl
              · rcases List.mem_cons.mp hc with rfl | hc
                · exact Bool.eq_false_iff.mpr hd
                · exact ih x List.mem_cons_self c hc
              · exact ih l (List.mem_cons_of_mem _ hl) c hc

/-! ### Blank ends -/

theorem strip_of_trim {text : List α} (hfirst : ∀ c ∈ text.head?, blank c = false)
    (hlast : ∀ c ∈ text.getLast?, blank c = false) : strip blank text = text := by
  have hdrop : text.dropWhile blank = text := by
    cases text with
    | nil => rfl
    | cons c cs => rw [List.dropWhile_cons_of_neg (by simp [hfirst c rfl])]
  rw [strip, hdrop, List.rdropWhile_eq_self_iff]
  intro hne
  rw [hlast _ (List.getLast_mem_getLast? hne)]
  exact Bool.false_ne_true

theorem strip_cons {c : α} {cs : List α} (hc : blank c = false) : ∃ ds, strip blank (c :: cs) = c :: ds := by
  rw [strip, List.dropWhile_cons_of_neg (by simp [hc])]
  have hne : (c :: cs).rdropWhile blank ≠ [] := by
    rw [Ne, List.rdropWhile_eq_nil_iff]
    intro hall
    rw [hall c List.mem_cons_self] at hc
    cases hc
  obtain ⟨d, ds, hd⟩ := List.exists_cons_of_ne_nil hne
  obtain ⟨t, ht⟩ := List.rdropWhile_prefix blank (c :: cs)
  rw [hd] at ht ⊢
  obtain ⟨rfl, -⟩ := List.cons.inj ht
  exact ⟨ds, rfl⟩

end Lib.Lines
