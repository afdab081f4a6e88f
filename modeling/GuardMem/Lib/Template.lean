import Mathlib.Data.List.Basic
import Mathlib.Tactic.Common

/-! A text with holes in it, found by one pass from the left.

    `hole` says whether a hole begins here, which one it is and how long. `scan` reads the text into its
    characters and its holes, and goes on behind a hole it found; `fill` puts a value in each hole. The
    pieces are the text (`raw_scan`), each is what the text begins with there (`reads_scan`), and they
    depend on the text only, so what is filled in is never read again. -/

namespace Lib.Template

variable {α N : Type*}

/-- One item of a text: a character of its own, or a hole as it is written. -/
inductive Piece (α N : Type*) where
  | char (c : α)
  | hole (name : N) (written : List α)

namespace Piece

def raw : Piece α N → List α
  | .char c => [c]
  | .hole _ written => written

def name? : Piece α N → Option N
  | .char _ => none
  | .hole name _ => some name

/-- A value in the place of each hole. -/
def fill (value : N → List α) : Piece α N → List α
  | .char c => [c]
  | .hole name _ => value name

end Piece

variable (hole : List α → Option (N × ℕ))

/-- Read the text from behind its first characters, which a hole took. -/
def scan : ℕ → List α → List (Piece α N)
  | _, [] => []
  | k + 1, _ :: cs => scan k cs
  | 0, c :: cs =>
      match hole (c :: cs) with
      | some (name, n) => .hole name ((c :: cs).take n) :: scan (n - 1) cs
      | none => .char c :: scan 0 cs

/-- The names of the holes, in the order they stand. -/
def names (text : List α) : List N := (scan hole 0 text).filterMap Piece.name?

/-- The text with the values in its holes. -/
def substitute (value : N → List α) (text : List α) : List α := (scan hole 0 text).flatMap (Piece.fill value)

variable {hole}

/-- The pieces are the text. -/
theorem raw_scan (hpos : ∀ cs name n, hole cs = some (name, n) → 0 < n) : ∀ {k : ℕ} {text : List α},
    (scan hole k text).flatMap Piece.raw = text.drop k
  | _, [] => by simp [scan]
  | k + 1, _ :: cs => by
      rw [scan, raw_scan hpos, List.drop_succ_cons]
  | 0, c :: cs => by
      rw [scan]
      split
      · next name n hhole =>
          obtain ⟨m, rfl⟩ := Nat.exists_eq_add_one.mpr (hpos _ _ _ hhole)
          rw [List.flatMap_cons, raw_scan hpos]
          simp [Piece.raw]
      · rw [List.flatMap_cons, raw_scan hpos]
        simp [Piece.raw]

variable (hole) in
/-- What a piece says of the text that it begins: no hole begins at a character that is left as one, and
    the hole that a hole is begins there and is written as it is. -/
def Piece.Reads (rest : List α) : Piece α N → Prop
  | .char c => hole (c :: rest) = none
  | .hole name written => ∃ n, hole (written ++ rest) = some (name, n) ∧ written = (written ++ rest).take n

/-- Each piece is what the text behind the ones before it begins with. -/
theorem reads_scan (hpos : ∀ cs name n, hole cs = some (name, n) → 0 < n) : ∀ {k : ℕ} {text : List α}
    {front back : List (Piece α N)} {p : Piece α N}, scan hole k text = front ++ p :: back →
      p.Reads hole (back.flatMap Piece.raw)
  | _, [], front, back, p, h => by cases front <;> simp [scan] at h
  | k + 1, _ :: cs, front, back, p, h => by
      rw [scan] at h
      exact reads_scan hpos h
  | 0, c :: cs, front, back, p, h => by
      rw [scan] at h
      split at h
      · next name n hhole =>
          obtain ⟨m, rfl⟩ := Nat.exists_eq_add_one.mpr (hpos _ _ _ hhole)
          cases front with
          | nil =>
              obtain ⟨rfl, rfl⟩ := List.cons.inj h
              have hrest : (c :: cs).take (m + 1) ++ (scan hole (m + 1 - 1) cs).flatMap Piece.raw = c :: cs := by
                rw [raw_scan hpos, Nat.add_sub_cancel, List.take_succ_cons, List.cons_append,
                  List.take_append_drop]
              exact ⟨m + 1, by rw [hrest]; exact hhole, by rw [hrest]⟩
          | cons q front => exact reads_scan hpos (List.cons.inj h).2
      · next hhole =>
          cases front with
          | nil =>
              obtain ⟨rfl, rfl⟩ := List.cons.inj h
              rw [Piece.Reads, raw_scan hpos, List.drop_zero]
              exact hhole
          | cons q front => exact reads_scan hpos (List.cons.inj h).2

end Lib.Template
